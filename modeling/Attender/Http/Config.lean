/-!
# The configuration

The limits of `net_core.hpp`. Each is a macro that a build may set to another
value, so the models take the configuration as a parameter and the defaults are
those of the header.
-/

namespace Attender.Http

/-- `attender::config`. -/
structure Config where
  /-- `CONFIG_RECEIVE_BUFFER_SIZE`. -/
  bufferSize : Nat := 4096
  /-- `CONFIG_MAX_HEADER_BUFFER`. -/
  headerBufferMax : Nat := 4096
  /-- `CONFIG_MAX_HEADER_FIELDS`. -/
  headerFieldMax : Nat := 256

end Attender.Http
