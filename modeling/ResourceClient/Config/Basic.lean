/-
The configuration of a run, and what makes it valid.
-/
import ResourceClient.Files.Error
import ResourceClient.Text.Blank
import ResourceClient.Text.Fold
import ResourceClient.Text.Search
import ResourceClient.TypeScript.Declaration

namespace ResourceClient

open Text

/-- The settings of a run. -/
structure Config where
  /-- The name of the class in the client. -/
  serviceName : Option String := none
  /-- The endpoints that get no interface of their own. -/
  exclude : List String := []
  /-- The extensions of source files. -/
  extensions : List String := ["cfc"]
  interfacesFile : String := "taffy-typescript-client-interfaces.ts"
  clientFile : String := "taffy-typescript-client.ts"
  /-- Whether no field of a patch is required. -/
  patchFieldsOptional : Bool := true
  deriving DecidableEq, Repr, Inhabited

/-- Why a configuration cannot be had, or cannot be used. -/
inductive ConfigError
  | unreadable (path : String) (cause : FileError)
  | malformed
  | missingServiceName
  | invalidServiceName (name : String)
  | invalidOutputFile (name : String)
  | outputCollision (name : String)
  deriving DecidableEq, Repr

def ConfigError.message : ConfigError → String
  | .unreadable path cause => "failed to read config file `" ++ path ++ "`: " ++ cause.message
  | .malformed => "failed to parse config file"
  | .missingServiceName => "no service name given"
  | .invalidServiceName name => "`" ++ name ++ "` is not a valid TypeScript identifier"
  | .invalidOutputFile name => "output file name `" ++ name ++ "` must be a bare file name"
  | .outputCollision name => "the interfaces file and the client file are both named `" ++ name ++ "`"

namespace Config

/-- Takes a service name that is given. -/
def withServiceName (c : Config) : Option String → Config
  | none => c
  | some name => { c with serviceName := some name }

/-- Excludes one more endpoint, unless it is excluded already. -/
def addExcluded (c : Config) (name : String) : Config :=
  if c.exclude.contains name then c else { c with exclude := c.exclude ++ [name] }

def withExcluded (c : Config) (names : List String) : Config :=
  names.foldl addExcluded c

/-! ## Validity -/

/-- Whether a name stays in the folder it is joined to. -/
def isBareFileName (name : String) : Bool :=
  (nonblank? name).isSome && !name.toList.contains '/' && !name.toList.contains '\\' && name != "." &&
    name != ".."

/-- The service name of a configuration that can be used. -/
def validate (c : Config) : Except ConfigError String :=
  match c.serviceName.bind nonblank? with
  | none => .error .missingServiceName
  | some name =>
    if !TypeScript.isIdentifier name then .error (.invalidServiceName name)
    else if !isBareFileName c.interfacesFile then .error (.invalidOutputFile c.interfacesFile)
    else if !isBareFileName c.clientFile then .error (.invalidOutputFile c.clientFile)
    else if c.interfacesFile = c.clientFile then .error (.outputCollision c.clientFile)
    else .ok name

/-! ## Questions of a run -/

def isExcluded (c : Config) (name : String) : Bool :=
  c.exclude.contains name

/-- Whether a path has an extension of a source file. Dots in front of a configured extension and the
case of letters do not count. -/
def accepts (c : Config) (path : String) : Bool :=
  match Path.extension? path with
  | none => false
  | some extension =>
    c.extensions.any fun allowed => sameFolded (String.ofList (allowed.toList.dropWhile (· == '.'))) extension

/-- A text without a given end. -/
def withoutEnd? (ending : String) (s : String) : Option String :=
  (strip? ending.toList.reverse s.toList.reverse).map fun cs => String.ofList cs.reverse

/-- How the client refers to the interfaces file. -/
def interfacesModule (c : Config) : String :=
  "./" ++ ((withoutEnd? ".d.ts" c.interfacesFile).or (withoutEnd? ".ts" c.interfacesFile)).getD c.interfacesFile

def emitOptions (c : Config) : TypeScript.EmitOptions :=
  ⟨c.patchFieldsOptional⟩

end Config

end ResourceClient
