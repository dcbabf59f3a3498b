/-
Configurations from TOML documents. A setting has one of six keys and the type of its field; a document
with any other is refused.
-/
import ResourceClient.Config.Basic
import ResourceClient.Toml.Settings

namespace ResourceClient.Config

/-- The configuration with one setting. -/
def set? (c : Config) : String × Toml.Value → Option Config
  | ("service_name", .text s) => some { c with serviceName := some s }
  | ("exclude", .texts ss) => some { c with exclude := ss }
  | ("extensions", .texts ss) => some { c with extensions := ss }
  | ("interfaces_file", .text s) => some { c with interfacesFile := s }
  | ("client_file", .text s) => some { c with clientFile := s }
  | ("patch_fields_optional", .flag b) => some { c with patchFieldsOptional := b }
  | _ => none

/-- The configuration in a document. -/
def ofToml (document : String) : Except ConfigError Config :=
  match (Toml.settings? document).bind fun settings => settings.foldlM set? ({} : Config) with
  | none => .error .malformed
  | some c => .ok c

end ResourceClient.Config
