/-
The names in the generated files fit each other: what the client takes from the interfaces file is exported there,
and neither the exports nor the members of the class have a name twice.

Both files are read part by part. The names of the endpoints are distinct because the sources that count are told
apart by them, and they are none of the fixed names because these are set aside when an endpoint is named.
-/
import ResourceClient.Proofs.Generation.Isolation
import ResourceClient.Proofs.TypeScript.Mentions

namespace ResourceClient

open TypeScript

namespace Artifacts

/-! ## The parts of the files -/

theorem finds_sharedTypes : Finds sharedTypes
    [.exported "TaffyHttpClientProvider", .exported "TaffyResource", .exported "TaffyResourceFactory"] := by
  have hheader : Finds (header ++ "\n") [] := by
    unfold header
    rw [← String.ofList_append]
    exact .ofList (by decide +kernel)
  have hbreak : Finds "\n" [] := .ofList (by decide)
  exact ((hheader.append finds_transportDeclaration).append hbreak).append finds_resourceTypes

theorem reads_clientHead {serviceName : String} (h : isShaped serviceName.toList = true) (interfacesModule : String) :
    Reads (clientHead serviceName interfacesModule)
      [.word "import", .mark '*', .word "as", .word "Interfaces", .word "from", .literal, .mark ';', .word "export",
        .word "class", .word serviceName, .mark '<', .word "TResult", .mark '>', .mark '\x7b'] := by
  have himport : Reads (header ++ "\n\nimport * as Interfaces from ")
      [.word "import", .mark '*', .word "as", .word "Interfaces", .word "from"] := by
    unfold header
    rw [← String.ofList_append]
    exact .ofList (by decide +kernel)
  have hclass : Reads ";\n\nexport class " [.mark ';', .word "export", .word "class"] := .ofList (by rfl)
  have hname : Reads (serviceName ++ "<TResult> \x7b\n")
      [.word serviceName, .mark '<', .word "TResult", .mark '>', .mark '\x7b'] :=
    .name h (by decide) (by rfl)
  have hall := ((himport.append (reads_encode interfacesModule)).append hclass).append hname
  rw [← String.append_assoc] at hall
  exact hall

theorem finds_clientHead {serviceName : String} (h : isShaped serviceName.toList = true) (interfacesModule : String) :
    Finds (clientHead serviceName interfacesModule) [.exported serviceName] :=
  .of_reads (reads_clientHead h interfacesModule) rfl (by simp [mentions, mention?])

set_option maxRecDepth 2000 in
theorem finds_constructorLine : Finds constructorLine
    [.member "constructor", .member "transport", .used "TaffyHttpClientProvider"] :=
  .ofList (by rfl)

theorem finds_clientTail : Finds clientTail
    [.used "TaffyHttpClientProvider", .used "TaffyResourceFactory", .used "TaffyResource"] := by
  have hend : Finds "    \x7d\n\x7d\n\n" [] := .ofList (by decide)
  exact hend.append finds_sharedFunctions

/-! ## The files -/

/-- An output as a run makes it, with a name that is an identifier. -/
structure IsRouted (c : Config) (o : EndpointOutput) : Prop where
  name : isShaped o.name.toList = true
  ofEndpoint : ∃ e : Endpoint, e.name = o.name ∧ o = .ofEndpoint c.emitOptions (!c.isExcluded o.name) e

/-- What the section of an output mentions. -/
def sectionMentions (c : Config) (o : EndpointOutput) : List Mention :=
  if c.isExcluded o.name then [] else [.exported o.name]

/-- What the field of an output mentions. -/
def fieldMentions (c : Config) (o : EndpointOutput) : List Mention :=
  [.member o.name, .used (memberType o.name (!c.isExcluded o.name))]

/-- What the constructor and the functions behind the class mention. -/
def fixedMentions : List Mention :=
  [.member "constructor", .member "transport", .used "TaffyHttpClientProvider", .used "TaffyHttpClientProvider",
    .used "TaffyResourceFactory", .used "TaffyResource"]

section

variable {c : Config} {o : EndpointOutput} {outputs : List EndpointOutput}

theorem finds_declarationSection (h : IsRouted c o) : Finds (declarationSection o) (sectionMentions c o) := by
  obtain ⟨e, he, ho⟩ := h.ofEndpoint
  unfold sectionMentions
  rw [← he] at ho ⊢
  rw [ho]
  unfold declarationSection EndpointOutput.ofEndpoint
  cases c.isExcluded e.name with
  | true => exact .empty
  | false =>
    have hbreak : Finds "\n" [] := .ofList (by decide)
    have hname : isShaped e.name.toList = true := by rw [he, h.name]
    have hne : renderDeclaration c.emitOptions e ≠ "" := EndpointOutput.renderDeclaration_ne_empty _
    show Finds (if renderDeclaration c.emitOptions e = "" then "" else "\n" ++ renderDeclaration c.emitOptions e)
      [.exported e.name]
    rw [if_neg hne]
    exact hbreak.append (finds_declaration (isSafe_ofEndpoint c.emitOptions hname))

theorem finds_fieldLine (h : IsRouted c o) : Finds (fieldLine o) (fieldMentions c o) := by
  obtain ⟨e, he, ho⟩ := h.ofEndpoint
  unfold fieldMentions
  have hindent : Finds "    " [] := .ofList (by decide)
  have hbreak : Finds "\n" [] := .ofList (by decide)
  rw [← he] at ho ⊢
  rw [ho]
  exact (hindent.append (finds_renderField (he ▸ h.name) _)).append hbreak

theorem finds_registrationLines (h : ∀ o ∈ outputs, IsRouted c o) : Finds (registrationLines outputs) [] := by
  have hindent : Finds "        " [] := .ofList (by decide)
  have hbreak : Finds "\n" [] := .ofList (by decide)
  have hline : ∀ o ∈ outputs, Finds ("        " ++ o.registration ++ "\n") [] := by
    intro o ho
    obtain ⟨e, he, hoe⟩ := (h o ho).ofEndpoint
    rw [hoe]
    exact (hindent.append (finds_renderRegistration (he ▸ (h o ho).name))).append hbreak
  exact .join_silent hline

theorem finds_interfacesText (h : ∀ o ∈ outputs, IsRouted c o) :
    Finds (interfacesText outputs)
      (.exported "TaffyHttpClientProvider" :: .exported "TaffyResource" :: .exported "TaffyResourceFactory" ::
        outputs.flatMap (sectionMentions c)) := by
  rw [interfacesText_eq fun o ho => ?_]
  · exact finds_sharedTypes.append (.join fun o ho => finds_declarationSection (h o ho))
  · obtain ⟨e, -, hoe⟩ := (h o ho).ofEndpoint
    rw [hoe]
    exact declaration_ofEndpoint ..

theorem finds_clientText {serviceName : String} (hs : isShaped serviceName.toList = true) (interfacesModule : String)
    (h : ∀ o ∈ outputs, IsRouted c o) :
    Finds (clientText serviceName interfacesModule outputs)
      (.exported serviceName :: (outputs.flatMap (fieldMentions c) ++ fixedMentions)) := by
  have hfields : Finds (String.join (outputs.map fieldLine)) (outputs.flatMap (fieldMentions c)) :=
    .join fun o ho => finds_fieldLine (h o ho)
  have hblank : Finds (fieldsEnd outputs) [] := by
    unfold fieldsEnd
    split
    · exact .empty
    · exact .ofList (by decide)
  rw [clientText_eq fun o ho => ?_]
  · have hall := ((((finds_clientHead hs interfacesModule).append hfields).append hblank).append
      finds_constructorLine).append (finds_registrationLines h) |>.append finds_clientTail
    simpa only [fixedMentions, List.append_assoc, List.append_nil, List.nil_append, List.cons_append] using hall
  · obtain ⟨e, -, hoe⟩ := (h o ho).ofEndpoint
    rw [hoe]
    exact EndpointOutput.isEmpty_ofEndpoint e

/-! ## The names -/

theorem exports_interfacesText (h : ∀ o ∈ outputs, IsRouted c o) : exports (interfacesText outputs) =
    ["TaffyHttpClientProvider", "TaffyResource", "TaffyResourceFactory"] ++
      (outputs.map (·.name)).filter (!c.isExcluded ·) := by
  have hdeclared : (outputs.flatMap (sectionMentions c)).filterMap Mention.exported? =
      (outputs.map (·.name)).filter (!c.isExcluded ·) := by
    clear h
    induction outputs with
    | nil => rfl
    | cons o outputs ih =>
      rw [List.flatMap_cons, List.filterMap_append, ih, List.map_cons, sectionMentions]
      cases hx : c.isExcluded o.name with
      | true => rw [List.filter_cons_of_neg (by simp [hx])]; rfl
      | false => rw [List.filter_cons_of_pos (by simp [hx])]; rfl
  rw [← hdeclared, exports, (finds_interfacesText h).mentions_eq]
  rfl

/-- One kind of mention of the fields, if each field has one of it. -/
theorem filterMap_fieldMentions {f : Mention → Option String} {g : String → String}
    (h : ∀ o, (fieldMentions c o).filterMap f = [g o.name]) :
    (outputs.flatMap (fieldMentions c)).filterMap f = (outputs.map (·.name)).map g := by
  rw [List.filterMap_flatMap, List.map_map, List.map_eq_flatMap]
  exact List.flatMap_congr fun o _ => h o

theorem uses_clientText {serviceName : String} (hs : isShaped serviceName.toList = true) (interfacesModule : String)
    (h : ∀ o ∈ outputs, IsRouted c o) : uses (clientText serviceName interfacesModule outputs) =
      (outputs.map (·.name)).map (fun name => memberType name (!c.isExcluded name)) ++
        ["TaffyHttpClientProvider", "TaffyHttpClientProvider", "TaffyResourceFactory", "TaffyResource"] := by
  have hone : ∀ o, (fieldMentions c o).filterMap Mention.used? = [memberType o.name (!c.isExcluded o.name)] :=
    fun _ => rfl
  rw [← filterMap_fieldMentions hone, uses, (finds_clientText hs interfacesModule h).mentions_eq,
    List.filterMap_cons_none rfl, List.filterMap_append]
  rfl

theorem members_clientText {serviceName : String} (hs : isShaped serviceName.toList = true) (interfacesModule : String)
    (h : ∀ o ∈ outputs, IsRouted c o) :
    members (clientText serviceName interfacesModule outputs) = outputs.map (·.name) ++ ["constructor", "transport"] := by
  have hone : ∀ o, (fieldMentions c o).filterMap Mention.member? = [id o.name] := fun _ => rfl
  rw [← List.map_id (outputs.map _), ← filterMap_fieldMentions hone, members,
    (finds_clientText hs interfacesModule h).mentions_eq, List.filterMap_cons_none rfl, List.filterMap_append]
  rfl

end

end Artifacts

/-! ## Runs -/

open Artifacts

/-- The names in the files of a run fit each other. -/
structure NamesFit (c : Config) (g : Generation) : Prop where
  /-- The interfaces file exports the fixed types, and one for each endpoint that is not excluded. -/
  exported : exports (g.artifacts c).interfaces =
    ["TaffyHttpClientProvider", "TaffyResource", "TaffyResourceFactory"] ++
      g.report.endpoints.filter (!c.isExcluded ·)
  exported_once : (exports (g.artifacts c).interfaces).Nodup
  /-- Each field of the client takes its type from there, and so do the constructor and the functions. -/
  used : uses (g.artifacts c).client =
    g.report.endpoints.map (fun name => if c.isExcluded name then "TaffyResourceFactory" else name) ++
      ["TaffyHttpClientProvider", "TaffyHttpClientProvider", "TaffyResourceFactory", "TaffyResource"]
  used_exported : ∀ name ∈ uses (g.artifacts c).client, name ∈ exports (g.artifacts c).interfaces
  /-- The members of the class are the fields, the constructor and the transport. -/
  members : members (g.artifacts c).client = g.report.endpoints ++ ["constructor", "transport"]
  members_once : (TypeScript.members (g.artifacts c).client).Nodup
  identifiers : ∀ name ∈ g.report.endpoints, isIdentifier name = true

section

variable {c : Config} {serviceName : String}

/-- The name of a class that is validated is an identifier. -/
theorem isIdentifier_of_validate (h : c.validate = .ok serviceName) : isIdentifier serviceName = true := by
  unfold Config.validate at h
  split at h
  · cases h
  · rename_i name _
    by_cases hname : isIdentifier name = true
    · rw [hname] at h
      simp only [Bool.not_true, Bool.false_eq_true, if_false] at h
      split_ifs at h
      cases h
      exact hname
    · rw [if_pos (by simpa using hname)] at h
      cases h

/-- The fixed names stand before distinct ones that are clear of them. -/
theorem nodup_fixed_append {fixed names : List String} (hf : fixed.Nodup) (hg : ∀ name ∈ fixed, name ∈ generated)
    (hn : names.Nodup) (hclear : ∀ name ∈ names, name ∉ generated) : (fixed ++ names).Nodup := by
  refine List.nodup_append.2 ⟨hf, hn, fun a ha b hb hab => ?_⟩
  exact hclear b hb (hab ▸ hg a ha)

theorem namesFit_of_outputs {g : Generation} (hs : isShaped g.report.serviceName.toList = true)
    (ho : ∀ o ∈ g.outputs, IsRouted c o) (hnames : g.outputs.map (·.name) = g.report.endpoints)
    (honce : g.report.endpoints.Nodup)
    (hname : ∀ name ∈ g.report.endpoints, isIdentifier name = true ∧ name ∉ generated) : NamesFit c g := by
  have hinterfaces : (g.artifacts c).interfaces = interfacesText g.outputs := rfl
  have hclient : (g.artifacts c).client = clientText g.report.serviceName c.interfacesModule g.outputs := rfl
  have hexports := exports_interfacesText ho
  have huses := uses_clientText hs c.interfacesModule ho
  have hmembers := members_clientText hs c.interfacesModule ho
  rw [hnames] at hexports huses hmembers
  rw [← hinterfaces] at hexports
  rw [← hclient] at huses hmembers
  have hclear : ∀ name ∈ g.report.endpoints, name ∉ generated := fun name h => (hname name h).2
  have htypes : ∀ name, memberType name (!c.isExcluded name) =
      if c.isExcluded name then "TaffyResourceFactory" else name := by
    intro name
    unfold memberType
    cases c.isExcluded name <;> rfl
  simp only [htypes] at huses
  refine ⟨hexports, ?_, huses, ?_, hmembers, ?_, fun name h => (hname name h).1⟩
  · rw [hexports]
    exact nodup_fixed_append (by decide) (by decide) (honce.filter _)
      fun name h => hclear name (List.mem_filter.1 h).1
  · intro used hused
    rw [huses] at hused
    rw [hexports]
    rcases List.mem_append.1 hused with hfield | hfixed
    · -- a field has the type of its endpoint just when this is exported
      obtain ⟨name, hmem, rfl⟩ := List.mem_map.1 hfield
      cases hx : c.isExcluded name with
      | true => simp
      | false =>
        refine List.mem_append_right _ (List.mem_filter.2 ⟨by simpa using hmem, ?_⟩)
        simp [hx]
    · have hall : ∀ name ∈ ["TaffyHttpClientProvider", "TaffyHttpClientProvider", "TaffyResourceFactory",
            "TaffyResource"], name ∈ ["TaffyHttpClientProvider", "TaffyResource", "TaffyResourceFactory"] := by decide +kernel
      exact List.mem_append_left _ (hall used hfixed)
  · rw [hmembers, List.perm_append_comm.nodup_iff]
    exact nodup_fixed_append (by decide) (by decide) honce hclear

section

variable {content : String → Except FileError ByteArray} {sources : List SourceFile}

/-- The endpoints of a run have names that are made for them. -/
theorem name_of_mem_endpoints (hn : (sources.map (·.path)).Nodup) (hname : ∀ s ∈ sources, s.name = endpointName s.path)
    {name : String} (h : name ∈ (Generation.ofSources c serviceName content sources).report.endpoints) :
    isIdentifier name = true ∧ name ∉ generated := by
  obtain ⟨routed, _, _, _, ha⟩ := accounts_ofSources c serviceName content hn
  rw [ha.endpoints] at h
  obtain ⟨s, hs, hsn⟩ := List.mem_map.1 h
  have hsource := hname s ((ha.sublist routed List.mem_cons_self).subset hs)
  rw [← hsn, hsource]
  exact ⟨isIdentifier_endpointName s.path, endpointName_not_mem_generated s.path⟩

theorem isRouted_of_mem_outputs (hn : (sources.map (·.path)).Nodup)
    (hname : ∀ s ∈ sources, s.name = endpointName s.path) {o : EndpointOutput}
    (h : o ∈ (Generation.ofSources c serviceName content sources).outputs) : IsRouted c o := by
  refine ⟨?_, ofEndpoint_of_mem_outputs h⟩
  have hmem : o.name ∈ (Generation.ofSources c serviceName content sources).report.endpoints :=
    List.mem_map_of_mem (f := fun o : EndpointOutput => o.name) h
  exact (isIdentifier_iff.1 (name_of_mem_endpoints hn hname hmem).1).1

theorem namesFit_ofSources (hs : isShaped serviceName.toList = true) (hn : (sources.map (·.path)).Nodup)
    (hname : ∀ s ∈ sources, s.name = endpointName s.path) :
    NamesFit c (.ofSources c serviceName content sources) := by
  obtain ⟨_, _, _, _, ha⟩ := accounts_ofSources c serviceName content hn
  exact namesFit_of_outputs hs (fun o => isRouted_of_mem_outputs hn hname) ha.output_names
    (List.nodup_append.1 ha.distinct).1 fun name => name_of_mem_endpoints hn hname

end

/-- The sources of a folder have the names that are made for their paths. -/
theorem SourceFile.name_of_mem_ofEntries {folder : String} {entries : List Entry} {s : SourceFile}
    (h : s ∈ SourceFile.ofEntries c folder entries) : s.name = endpointName s.path := by
  rw [SourceFile.ofEntries_eq] at h
  obtain ⟨n, -, rfl⟩ := List.mem_map.1 h
  rw [SourceFile.ofName]

/-- A run over a folder in a system at rest succeeds, and the names in its two files fit each other. -/
theorem run_names_fit {σ : Type} [FileStore (StateM σ)] {state : σ} {folder : String} {entries : List Entry}
    {content : String → Except FileError ByteArray} (hc : c.validate = .ok serviceName)
    (h : AtRest state folder entries content) :
    ∃ g, (run c folder : StateM σ _) state = (.ok g, state) ∧ NamesFit c g := by
  have hs : isShaped serviceName.toList = true := (isIdentifier_iff.1 (isIdentifier_of_validate hc)).1
  exact ⟨_, run_eq hc h, namesFit_ofSources hs (h.nodup_paths c) fun s => SourceFile.name_of_mem_ofEntries⟩

/-- One of two files is a component, whose endpoint is excluded. -/
theorem run_names_fit_besideBroken :
    let tree := besideBroken "<cfcomponent taffy_uri=\"/a\"></cfcomponent>".toUTF8
    let c : Config := { serviceName := some "Api", exclude := ["a"] }
    c.validate = .ok "Api" ∧ AtRest tree "src" [⟨"a.cfc", true⟩, ⟨"b.cfc", true⟩] tree.read ∧
    ∃ g, (run c "src" : TreeM _) tree = (.ok g, tree) ∧ NamesFit c g := by
  intro tree c
  have hc : c.validate = .ok "Api" := by decide +kernel
  have h : AtRest tree "src" [⟨"a.cfc", true⟩, ⟨"b.cfc", true⟩] tree.read := atRest_besideBroken _
  exact ⟨hc, h, run_names_fit hc h⟩

end

end ResourceClient
