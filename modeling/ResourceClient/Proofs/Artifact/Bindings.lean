/-
The bindings of the client file: the namespace of the interfaces, the class, and the functions behind it. Nothing that
an output adds is among them, since all of it lies inside the class. The name of the class is any identifier, so the
bindings are distinct exactly if it is none of the fixed ones.
-/
import ResourceClient.Proofs.Artifact.Names
import ResourceClient.Proofs.TypeScript.Bindings

namespace ResourceClient

open TypeScript

/-! ## Outputs -/

/-- Whether what an output adds to the client stays inside the brackets it is put into. -/
structure EndpointOutput.Balanced (o : EndpointOutput) : Prop where
  field : TypeScript.Balanced (Artifacts.fieldLine o)
  registration : TypeScript.Balanced ("        " ++ o.registration ++ "\n")

/-- The output of an endpoint stays inside. -/
theorem EndpointOutput.balanced_ofEndpoint (options : EmitOptions) (typed : Bool) {e : Endpoint}
    (h : isShaped e.name.toList = true) : (EndpointOutput.ofEndpoint options typed e).Balanced := by
  have hbreak : TypeScript.Balanced "\n" := .ofList (by rfl) (by rfl)
  constructor
  · have hindent : TypeScript.Balanced "    " := .ofList (by rfl) (by rfl)
    exact (hindent.append (balanced_renderField h typed)).append hbreak
  · have hindent : TypeScript.Balanced "        " := .ofList (by rfl) (by rfl)
    exact (hindent.append (balanced_renderRegistration h)).append hbreak

namespace Artifacts

/-! ## The parts of the client file -/

theorem binds_clientHead {serviceName : String} (h : isShaped serviceName.toList = true) (interfacesModule : String) :
    Binds 0 (clientHead serviceName interfacesModule) 1 ["Interfaces", serviceName] :=
  ⟨_, reads_clientHead h interfacesModule, by rfl⟩

theorem balanced_fieldsEnd (outputs : List EndpointOutput) : TypeScript.Balanced (fieldsEnd outputs) := by
  unfold fieldsEnd
  split
  · exact .ofList (by rfl) (by rfl)
  · exact .ofList (by rfl) (by rfl)

theorem binds_fieldLines {outputs : List EndpointOutput} (h : ∀ o ∈ outputs, o.Balanced) :
    Binds 1 (fieldLines outputs) 1 [] := by
  rw [fieldLines_eq]
  exact (Binds.join (fun o ho => (h o ho).field) 0).append (.of_balanced (balanced_fieldsEnd outputs) 0)

set_option maxRecDepth 2000 in
theorem binds_constructorLine : Binds 1 constructorLine 2 [] :=
  .ofList (by rfl)

theorem binds_registrationLines {outputs : List EndpointOutput} (h : ∀ o ∈ outputs, o.Balanced) :
    Binds 2 (registrationLines outputs) 2 [] :=
  .join (fun o ho => (h o ho).registration) 1

theorem binds_clientTail : Binds 2 clientTail 0 ["create", "formatUrl", "encodeQueryData"] := by
  have hend : Binds 2 "    \x7d\n\x7d\n\n" 0 [] := .ofList (by rfl)
  exact hend.append binds_sharedFunctions

/-! ## The client file -/

/-- The names that the client file binds beside that of its class. -/
def fixedBindings : List String :=
  ["Interfaces", "create", "formatUrl", "encodeQueryData"]

theorem bindings_clientText {serviceName : String} (hs : isShaped serviceName.toList = true) (interfacesModule : String)
    {outputs : List EndpointOutput} (h : ∀ o ∈ outputs, o.isEmpty = false → o.Balanced) :
    bindings (clientText serviceName interfacesModule outputs) =
      ["Interfaces", serviceName, "create", "formatUrl", "encodeQueryData"] := by
  have hroutable : ∀ o ∈ outputs.filter (fun o => !o.isEmpty), o.Balanced := by
    intro o ho
    obtain ⟨hmem, hempty⟩ := List.mem_filter.1 ho
    exact h o hmem (by simpa using hempty)
  have hall := ((((binds_clientHead hs interfacesModule).append (binds_fieldLines hroutable)).append
    binds_constructorLine).append (binds_registrationLines hroutable)).append binds_clientTail
  exact hall.bindings_eq

theorem nodup_bindings_iff (serviceName : String) :
    ["Interfaces", serviceName, "create", "formatUrl", "encodeQueryData"].Nodup ↔ serviceName ∉ fixedBindings := by
  have hfixed : fixedBindings.Nodup := by decide
  have hswap : ["Interfaces", serviceName, "create", "formatUrl", "encodeQueryData"].Perm
      (serviceName :: fixedBindings) := .swap ..
  rw [hswap.nodup_iff, List.nodup_cons, and_iff_left hfixed]

/-- The client file of a valid configuration binds the namespace of the interfaces, its class and the shared functions;
these are distinct exactly if the class has none of the other names. -/
theorem bindings_assemble {c : Config} {serviceName : String} (hc : c.validate = .ok serviceName)
    {outputs : List EndpointOutput} (h : ∀ o ∈ outputs, o.isEmpty = false → o.Balanced) :
    bindings (assemble c serviceName outputs).client =
        ["Interfaces", serviceName, "create", "formatUrl", "encodeQueryData"] ∧
      ((bindings (assemble c serviceName outputs).client).Nodup ↔ serviceName ∉ fixedBindings) := by
  have hs : isShaped serviceName.toList = true := (isIdentifier_iff.1 (isIdentifier_of_validate hc)).1
  have hbindings := bindings_clientText hs c.interfacesModule h
  exact ⟨hbindings, hbindings ▸ nodup_bindings_iff serviceName⟩

/-- A client with one endpoint, whose bindings are distinct. -/
theorem bindings_assemble_notes :
    let c : Config := { serviceName := some "Api" }
    let o := EndpointOutput.ofEndpoint c.emitOptions true ⟨"notes", "/notes", [], []⟩
    c.validate = .ok "Api" ∧ o.isEmpty = false ∧ o.Balanced ∧ (bindings (assemble c "Api" [o]).client).Nodup := by
  intro c o
  have hc : c.validate = .ok "Api" := by decide +kernel
  have ho : o.Balanced := EndpointOutput.balanced_ofEndpoint _ _ (by decide +kernel)
  have hall : ∀ o' ∈ [o], o'.isEmpty = false → o'.Balanced := fun o' ho' _ => List.mem_singleton.1 ho' ▸ ho
  exact ⟨hc, EndpointOutput.isEmpty_ofEndpoint _, ho, (bindings_assemble hc hall).2.2 (by decide)⟩

/-- A valid configuration whose class has the name of a shared function. -/
theorem not_nodup_bindings_create :
    Config.validate { serviceName := some "create" } = .ok "create" ∧
      ¬(bindings (assemble { serviceName := some "create" } "create" []).client).Nodup := by
  have hbindings : bindings (assemble { serviceName := some "create" } "create" []).client =
      ["Interfaces", "create", "create", "formatUrl", "encodeQueryData"] :=
    bindings_clientText (by decide +kernel) _ nofun
  refine ⟨by decide +kernel, ?_⟩
  rw [hbindings, nodup_bindings_iff]
  decide

end Artifacts

end ResourceClient
