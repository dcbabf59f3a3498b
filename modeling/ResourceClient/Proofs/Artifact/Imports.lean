/-
What the import of the client designates. Its specifier is the name of the interfaces file without the suffix of a
module, and a specifier is looked for with either suffix; so the import leads to the interfaces file unless the two
files have one name but for the suffix, which the check of a configuration does not look at.
-/
import ResourceClient.Proofs.Artifact.Written
import ResourceClient.Proofs.Text.Search
import ResourceClient.Proofs.TypeScript.Literals

namespace ResourceClient

open Text TypeScript

/-! ## Names of modules -/

section

variable {file name ending : String}

end

/-! ## The import -/

namespace Artifacts

end Artifacts

end ResourceClient
