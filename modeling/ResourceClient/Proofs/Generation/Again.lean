/-
Generating again. Writing touches four entries of the target folder; if none of them is one that the listing would take
for a source, a second run lists the same sources and reads the same texts, so that it writes the same files over those
that are there. Only a source path that is itself a file in a temporary file's place is gone by then.
-/
import ResourceClient.Proofs.Artifact.Again
import ResourceClient.Proofs.Generation.Isolation

namespace ResourceClient

open FileTree Generation

variable {c : Config} {t t' : FileTree} {source target serviceName n : String} {entries : List Entry}
  {place : List String} {inside : List (String × FileTree)} {off : List (List String)}

/-! ## Listings -/

/-- The listing of an entry of a folder. -/
def entryOf (e : String × FileTree) : Entry :=
  ⟨e.1, e.2.isFile⟩

theorem list_of_open (ht : t.Plain) (hp : source ≠ "") (ho : t.Open [] (Path.names source))
    (hat : t.at? (location source) = some (.folder inside)) : t.list source = .ok (inside.map entryOf) := by
  unfold FileTree.list
  rw [place_of_open ht.root hp ho hat]
  rfl

/-- How a path that leads to a file is written: it ends in a name in an open folder. -/
structure LeadsToFile (t : FileTree) (path : String) (front : List String) (name : String) : Prop where
  steps : FileTree.steps path = front ++ [name]
  step : IsStep name
  through : t.Open [] front
  file : ∃ bytes, t.at? (location path) = some (.file bytes)

theorem list_of_leadsToFile (ht : t.Plain) {front : List String} (h : LeadsToFile t source front n) :
    t.list source = .ok [] := by
  have hp : source ≠ "" := by
    rintro rfl
    have hempty : FileTree.steps "" = [""] := by decide +kernel
    have hlast := congrArg List.getLast? h.steps
    rw [hempty, List.getLast?_concat] at hlast
    exact h.step.idle (.inl (Option.some.inj hlast).symm)
  obtain ⟨bytes, hat⟩ := h.file
  have hloc : location source = follow [] front ++ [n] := by
    rw [location, h.steps, follow_append]
    exact h.step.move_eq _
  unfold FileTree.list place
  rw [if_neg hp, h.steps, walk_open h.through, walk_last ht.linkFree h.step]
  unfold entryPlace
  rw [← hloc, hat]

/-- A listing is that of an open folder, or a file's. -/
theorem list_cases (ht : t.Plain) (hl : t.list source = .ok entries) :
    (source ≠ "" ∧ t.Open [] (Path.names source) ∧
      ∃ inside, t.at? (location source) = some (.folder inside) ∧ entries = inside.map entryOf) ∨
    (entries = [] ∧ ∃ front name, LeadsToFile t source front name) := by
  unfold FileTree.list at hl
  rcases hplace : t.place true source with e | p
  · rw [hplace] at hl
    cases hl
  · have hp : source ≠ "" := by
      rintro rfl
      cases hplace
    have hreach := place_reaches ht.linkFree ht.root hplace
    rw [hplace] at hl
    have hopen := open_steps_iff ht.root source
    have hloc : location source = follow [] (FileTree.steps source) := rfl
    generalize hsteps : FileTree.steps source = steps at hreach hopen hloc
    cases hreach with
    | @folder _ inside through found =>
      cases hl
      exact .inl ⟨hp, hopen.1 through, inside, hloc ▸ found, rfl⟩
    | @file front name bytes through step found =>
      cases hl
      have hlast : follow [] (front ++ [name]) = follow [] front ++ [name] := by
        rw [follow_append]
        exact step.move_eq _
      exact .inr ⟨rfl, front, name, hsteps, step, through, bytes, by rw [hloc, hlast, found]⟩
    | free through step blank found => cases hl

theorem mem_map_entryOf_iff (htidy : t.Tidy) (hat : t.at? place = some (.folder inside)) :
    ⟨n, true⟩ ∈ inside.map entryOf ↔ ∃ bytes, t.at? (place ++ [n]) = some (.file bytes) := by
  have hlookup : t.at? (place ++ [n]) = inside.lookup n := by
    rw [at?_append, hat, Option.bind_some, at?_folder_cons]
    cases inside.lookup n <;> simp
  rw [hlookup]
  constructor
  · intro hmem
    obtain ⟨⟨name, u⟩, hu, hentry⟩ := List.mem_map.1 hmem
    cases htidy.of_at? hat with
    | folder ordered named below =>
      cases u with
      | file bytes =>
        cases hentry
        exact ⟨bytes, lookup_eq_some_of_mem ordered hu⟩
      | link path => cases hentry
      | folder entries => cases hentry
  · rintro ⟨bytes, hfile⟩
    exact List.mem_map.2 ⟨_, mem_of_lookup_eq_some hfile, rfl⟩

/-- A tidy tree with a listing is at rest. -/
theorem atRest_of_list (ht : t.Plain) (htidy : t.Tidy) (hl : t.list source = .ok entries) :
    AtRest t source entries t.read := by
  rcases list_cases ht hl with ⟨-, -, inside, hat, rfl⟩ | ⟨rfl, -⟩
  · cases htidy.of_at? hat with
    | folder ordered named below =>
      refine FileTree.atRest hl ?_ ?_
      · rw [List.map_map]
        exact List.pairwise_map.2 (ordered.imp fun hlt => Std.ne_of_lt hlt)
      · intro e he
        obtain ⟨entry, hentry, rfl⟩ := List.mem_map.1 he
        exact (named entry hentry).slash
  · exact FileTree.atRest hl (by simp) (by simp)

/-! ## Runs -/

/-- A run over a tidy tree with a listing. -/
theorem run_of_list (hc : c.validate = .ok serviceName) (ht : t.Plain) (htidy : t.Tidy)
    (hl : t.list source = .ok entries) :
    (run c source : TreeM _) t =
      (.ok (.ofSources c serviceName t.read (SourceFile.ofEntries c source entries)), t) :=
  run_eq hc (atRest_of_list ht htidy hl)

/-- A source that has no listing stops a run. -/
theorem run_of_list_error (hc : c.validate = .ok serviceName) {cause : FileError} (hl : t.list source = .error cause) :
    (run c source : TreeM _) t = (.error (.listing source cause), t) := by
  have hlist : (FileStore.list source : TreeM _) t = (.error cause, t) := by rw [← hl]; rfl
  unfold run listSources
  rw [hc]
  simp only
  rw [bind_run, bind_run, hlist]
  rfl

/-- The listing of a tree that spares the files of another, aside from what is no source. -/
theorem FileTree.Spares.list (h : Spares off t t') (ht : t.Plain) (ht' : t'.Plain) (htidy : t.Tidy) (htidy' : t'.Tidy)
    (hl : t.list source = .ok entries)
    (hfile : ∀ bytes, t.at? (location source) = some (.file bytes) → ∃ bytes', t'.at? (location source) = some (.file bytes')) :
    ∃ entries', t'.list source = .ok entries' ∧ ∀ n, location source ++ [n] ∉ off →
      (⟨n, true⟩ ∈ entries ↔ ⟨n, true⟩ ∈ entries') ∧
      (⟨n, true⟩ ∈ entries → t.read (Path.join source n) = t'.read (Path.join source n)) := by
  rcases list_cases ht hl with ⟨hp, ho, inside, hat, rfl⟩ | ⟨rfl, front, name, hleads⟩
  · have ho' := ho.mono h.folders
    obtain ⟨inside', hat'⟩ := h.folders _ ⟨inside, hat⟩
    refine ⟨_, list_of_open ht' hp ho' hat', fun n hn => ?_⟩
    rw [mem_map_entryOf_iff htidy hat, mem_map_entryOf_iff htidy' hat']
    have hsame := h.files _ hn
    refine ⟨exists_congr hsame, ?_⟩
    rintro ⟨bytes, hbytes⟩
    have hname := htidy.isName_of_at? hbytes
    rw [read_join ht hname ho hbytes, read_join ht' hname ho' ((hsame bytes).1 hbytes)]
  · obtain ⟨bytes, hat⟩ := hleads.file
    have hleads' : LeadsToFile t' source front name :=
      ⟨hleads.steps, hleads.step, hleads.through.mono h.folders, hfile bytes hat⟩
    exact ⟨[], list_of_leadsToFile ht' hleads', fun n _ => ⟨Iff.rfl, fun hn => absurd hn List.not_mem_nil⟩⟩

theorem ofSources_eq_of_read {content content' : String → Except FileError ByteArray} {sources : List SourceFile}
    (h : ∀ s ∈ sources, content s.path = content' s.path) :
    Generation.ofSources c serviceName content sources = .ofSources c serviceName content' sources := by
  unfold Generation.ofSources
  congr 1
  refine List.map_congr_left fun s hs => ?_
  rw [outcomeIn_congr (h s ((SourceFile.distinct_sublist [] sources).subset hs))]

/-- A run comes to the same where all files but some that are no sources are spared. -/
theorem FileTree.Spares.run_same (h : Spares off t t') (hc : c.validate = .ok serviceName) (ht : t.Plain) (ht' : t'.Plain)
    (htidy : t.Tidy) (htidy' : t'.Tidy)
    (hoff : ∀ n, SourceFile.isSource c ⟨n, true⟩ = true → location source ++ [n] ∉ off)
    (hfile : ∀ bytes, t.at? (location source) = some (.file bytes) → ∃ bytes', t'.at? (location source) = some (.file bytes'))
    {g : Generation} (hrun : (run c source : TreeM _) t = (.ok g, t)) :
    (run c source : TreeM _) t' = (.ok g, t') := by
  cases hl : t.list source with
  | error cause =>
    rw [run_of_list_error hc hl] at hrun
    cases hrun
  | ok entries =>
    obtain ⟨entries', hl', hsame⟩ := h.list ht ht' htidy htidy' hl hfile
    rw [run_of_list hc ht htidy hl] at hrun
    cases hrun
    have hspared : ∀ {n}, n.toList.head? ≠ some '.' → c.accepts n = true → location source ++ [n] ∉ off :=
      fun hhidden haccepts => hoff _ (by simp [SourceFile.isSource, hhidden, haccepts])
    have hnames : SourceFile.sourceNames c entries = SourceFile.sourceNames c entries' := by
      refine List.Pairwise.eq_of_mem_iff (SourceFile.sourceNames_pairwise (atRest_of_list ht htidy hl).distinct)
        (SourceFile.sourceNames_pairwise (atRest_of_list ht' htidy' hl').distinct) fun n => ?_
      rw [SourceFile.mem_sourceNames, SourceFile.mem_sourceNames]
      exact and_congr_left fun hn => (hsame n (hspared hn.1 hn.2)).1
    have hsources : SourceFile.ofEntries c source entries = SourceFile.ofEntries c source entries' := by
      rw [SourceFile.ofEntries_eq, SourceFile.ofEntries_eq, hnames]
    have hread : ∀ s ∈ SourceFile.ofEntries c source entries, t.read s.path = t'.read s.path := by
      intro s hs
      rw [SourceFile.ofEntries_eq] at hs
      obtain ⟨n, hn, rfl⟩ := List.mem_map.1 hs
      obtain ⟨hmem, hhidden, haccepts⟩ := SourceFile.mem_sourceNames.1 hn
      exact (hsame n (hspared hhidden haccepts)).2 hmem
    rw [run_of_list hc ht' htidy' hl', ← hsources, ofSources_eq_of_read hread]

/-! ## Generating again -/

/-- A run that is not stopped is followed by the writing of its files. -/
theorem generate_of_run {g : Generation} (hrun : (run c source : TreeM _) t = (.ok g, t)) (target : String) :
    (generate c source target false : TreeM _) t =
      (.ok ⟨g.artifacts c, ((writeArtifacts c target (g.artifacts c) g.report : TreeM _) t).1⟩,
        ((writeArtifacts c target (g.artifacts c) g.report : TreeM _) t).2) := by
  unfold generate
  rw [bind_run, hrun]
  rfl

/-- A source that has no listing stops a generation before anything is written. -/
theorem generate_of_list_error (hc : c.validate = .ok serviceName) {cause : FileError}
    (hl : t.list source = .error cause) (target : String) :
    (generate c source target false : TreeM _) t = (.error (.listing source cause), t) := by
  unfold generate
  rw [bind_run, run_of_list_error hc hl]
  rfl

/-- Whether a place is one of which the listing of a folder would take a file for a source. -/
def Config.WouldList (c : Config) (source : String) (place : List String) : Prop :=
  ∃ n, SourceFile.isSource c ⟨n, true⟩ = true ∧ place = location source ++ [n]

/-- A path to a file still leads to one, unless the file was in the place of a temporary one. -/
theorem exists_file_of_written (hc : c.validate = .ok serviceName) (ht : t.Plain) {a : Artifacts} {r r' : Report}
    (h : (writeArtifacts c target a r : TreeM _) t = (r', t')) (hw : r'.writeFailures = [])
    (hplace : ∀ n ∈ [c.interfacesFile, c.clientFile], n ++ ".tmp" ≠ c.clientFile →
      place ≠ location (Path.join target (n ++ ".tmp"))) {bytes : ByteArray} (hat : t.at? place = some (.file bytes)) :
    ∃ bytes', t'.at? place = some (.file bytes') := by
  obtain ⟨t₀, t₁, -, -, h₁, h₂, -⟩ := exists_replaced_of_writeArtifacts hc ht h hw
  obtain ⟨hi, hk, -⟩ := Config.names_of_validate hc
  by_cases hmem : place ∈ c.writtenPlaces target
  · obtain ⟨n, hn, rfl⟩ := List.mem_map.1 hmem
    rw [at?_of_replaced h₁ h₂ hn]
    unfold leftAt
    split_ifs with hclient htemporary hinterfaces
    · exact ⟨_, rfl⟩
    · have hne := hplace c.clientFile (by simp) (Path.temporary_ne _)
      rw [location_join hk.temporary, ← htemporary] at hne
      exact absurd rfl hne
    · exact ⟨_, rfl⟩
    · have hname : n = c.interfacesFile ++ ".tmp" := by
        simpa [Config.writtenNames, hclient, htemporary, hinterfaces] using hn
      have hne := hplace c.interfacesFile (by simp) (hname ▸ hclient)
      rw [location_join hi.temporary, ← hname] at hne
      exact absurd rfl hne
  · exact ⟨bytes, ((writeArtifacts_spares hc ht h hw).files _ hmem _).1 hat⟩

/-- Generating into an open folder is a success without write failures when no folder is in the way. -/
theorem generate_of_free (hc : c.validate = .ok serviceName) (ht : t.Plain) (htidy : t.Tidy)
    (hl : t.list source = .ok entries) (ho : t.Open [] (Path.names target))
    (hfree : ∀ n ∈ c.writtenNames, ¬t.IsFolderAt (location target ++ [n])) :
    ∃ g t', (generate c source target false : TreeM _) t = (.ok g, t') ∧ g.report.writeFailures = [] ∧ t'.Plain ∧
      t'.Open [] (Path.names target) ∧
      ∀ n ∈ c.writtenNames, t'.at? (location target ++ [n]) = leftAt c g.artifacts n := by
  have hrun := run_of_list hc ht htidy hl
  have hclean : (Generation.ofSources c serviceName t.read (SourceFile.ofEntries c source entries)).report.writeFailures = [] :=
    rfl
  generalize Generation.ofSources c serviceName t.read (SourceFile.ofEntries c source entries) = first at hrun hclean
  obtain ⟨t₁, t₂, hwrite, h₁, h₂⟩ := writeArtifacts_of_free hc ht ho hfree (first.artifacts c) first.report
  have hgenerate := generate_of_run hrun target
  rw [hwrite] at hgenerate
  exact ⟨_, t₂, hgenerate, hclean, h₂.plain, (ho.mono h₁.folders).mono h₂.folders, fun n hn => at?_of_replaced h₁ h₂ hn⟩

/-- Generating again comes to the same and changes nothing, if the first time was a success, none of the places that
it touches is one of a source, and the path of the sources is not that of a temporary file. -/
theorem generate_again {g : GenerationOutput} (hc : c.validate = .ok serviceName) (ht : t.Plain) (htidy : t.Tidy)
    (hlist : ∀ n ∈ c.writtenNames, ¬c.WouldList source (location (Path.join target n)))
    (hsource : ∀ n ∈ [c.interfacesFile, c.clientFile], n ++ ".tmp" ≠ c.clientFile →
      location source ≠ location (Path.join target (n ++ ".tmp")))
    (h : (generate c source target false : TreeM _) t = (.ok g, t')) (hw : g.report.writeFailures = []) :
    (generate c source target false : TreeM _) t' = (.ok g, t') := by
  cases hl : t.list source with
  | error cause =>
    rw [generate_of_list_error hc hl] at h
    cases h
  | ok entries =>
    have hrun := run_of_list hc ht htidy hl
    generalize Generation.ofSources c serviceName t.read (SourceFile.ofEntries c source entries) = first at hrun
    rw [generate_of_run hrun] at h
    cases hwrite : (writeArtifacts c target (first.artifacts c) first.report : TreeM _) t with
    | mk report after =>
      rw [hwrite] at h
      cases h
      obtain ⟨t₀, t₁, -, -, -, h₂, -⟩ := exists_replaced_of_writeArtifacts hc ht hwrite hw
      have htidy' : after.Tidy := tidy_of_writeArtifacts htidy hwrite
      have hoff : ∀ n, SourceFile.isSource c ⟨n, true⟩ = true → location source ++ [n] ∉ c.writtenPlaces target := by
        intro n hn hmem
        obtain ⟨m, hm, heq⟩ := (Config.mem_writtenPlaces hc).1 hmem
        exact hlist m hm ⟨n, hn, heq.symm⟩
      have hagain := (writeArtifacts_spares hc ht hwrite hw).run_same hc ht h₂.plain htidy htidy' hoff
        (fun _ hat => exists_file_of_written hc ht hwrite hw hsource hat) hrun
      rw [generate_of_run hagain, writeArtifacts_again hc ht htidy hwrite hw]

theorem plain_besideBroken (bytes : ByteArray) : (besideBroken bytes).Plain := by
  refine ⟨linkFree_folder_of_mem ?_, _, at?_nil _⟩
  exact List.forall_mem_singleton.2 (linkFree_folder_of_mem (by simp [linkFree_file]))

theorem tidy_besideBroken (bytes : ByteArray) : (besideBroken bytes).Tidy := by
  refine tidy_folder_of_names ["src"] rfl (by decide +kernel) (List.forall_mem_singleton.2 ?_)
  exact tidy_folder_of_names ["a.cfc", "b.cfc"] rfl (by decide +kernel) (by simp [Tidy.file])

/-- Sources that lie in the folder that the files are written into. -/
theorem generate_again_besideBroken :
    let tree := besideBroken "<cfcomponent taffy_uri=\"/a\"></cfcomponent>".toUTF8
    let c : Config := { serviceName := some "Api" }
    c.validate = .ok "Api" ∧ tree.Plain ∧ tree.Tidy ∧
    (∀ n ∈ c.writtenNames, ¬c.WouldList "src" (location (Path.join "src" n))) ∧
    ∃ g t', (generate c "src" "src" false : TreeM _) tree = (.ok g, t') ∧ g.report.writeFailures = [] ∧
      (generate c "src" "src" false : TreeM _) t' = (.ok g, t') := by
  intro tree c
  have hc : c.validate = .ok "Api" := by decide +kernel
  have ht : tree.Plain := plain_besideBroken _
  have htidy : tree.Tidy := tidy_besideBroken _
  have hnames : ∀ n ∈ c.writtenNames, Path.IsName n ∧ SourceFile.isSource c ⟨n, true⟩ = false := by decide +kernel
  have hlist : ∀ n ∈ c.writtenNames, ¬c.WouldList "src" (location (Path.join "src" n)) := by
    rintro n hn ⟨m, hm, heq⟩
    rw [location_join (hnames n hn).1, List.append_cancel_left_eq, List.singleton_inj] at heq
    rw [← heq, (hnames n hn).2] at hm
    cases hm
  have ho : tree.Open [] (Path.names "src") := by
    rw [show Path.names "src" = ["src"] by decide +kernel]
    exact ⟨⟨_, rfl⟩, trivial⟩
  have hloc : location "src" = ["src"] := by decide +kernel
  have hfree : ∀ n ∈ c.writtenNames, ¬tree.IsFolderAt (location "src" ++ [n]) := by
    rw [hloc, Config.forall_writtenNames]
    exact ⟨not_isFolderAt_of_none rfl, not_isFolderAt_of_none rfl, not_isFolderAt_of_none rfl, not_isFolderAt_of_none rfl⟩
  have hl : tree.list "src" = .ok [⟨"a.cfc", true⟩, ⟨"b.cfc", true⟩] := by cbv
  obtain ⟨g, t', h, hw, -⟩ := generate_of_free hc ht htidy hl ho hfree
  refine ⟨hc, ht, htidy, hlist, g, t', h, hw, generate_again hc ht htidy hlist ?_ h hw⟩
  decide +kernel

/-- Without sources, since the path for them leads to a file that was left in the place of the client's temporary one. -/
theorem generate_again_loses_source :
    let tree : FileTree := .folder [("out", .folder [("taffy-typescript-client.ts.tmp", .file "old".toUTF8)])]
    let c : Config := { serviceName := some "Api" }
    let source := "out/taffy-typescript-client.ts.tmp"
    c.validate = .ok "Api" ∧ tree.Plain ∧ tree.Tidy ∧
    (∀ n ∈ c.writtenNames, ¬c.WouldList source (location (Path.join "out" n))) ∧
    ∃ g t', (generate c source "out" false : TreeM _) tree = (.ok g, t') ∧ g.report.writeFailures = [] ∧
      (generate c source "out" false : TreeM _) t' = (.error (.listing source .missing), t') := by
  intro tree c source
  have hc : c.validate = .ok "Api" := by decide +kernel
  have ht : tree.Plain := by
    refine ⟨linkFree_folder_of_mem ?_, _, at?_nil _⟩
    exact List.forall_mem_singleton.2 (linkFree_folder_of_mem (List.forall_mem_singleton.2 (linkFree_file _)))
  have htidy : tree.Tidy := by
    refine tidy_folder_of_names ["out"] rfl (by decide +kernel) (List.forall_mem_singleton.2 ?_)
    exact tidy_folder_of_names ["taffy-typescript-client.ts.tmp"] rfl (by decide +kernel)
      (List.forall_mem_singleton.2 (.file _))
  have hsource : source = Path.join "out" (c.clientFile ++ ".tmp") := by decide +kernel
  have hname : Path.IsName (c.clientFile ++ ".tmp") := by decide +kernel
  have hloc : location "out" = ["out"] := by decide +kernel
  have ho : tree.Open [] (Path.names "out") := by
    rw [show Path.names "out" = ["out"] by decide +kernel]
    exact ⟨⟨_, rfl⟩, trivial⟩
  have hnames : ∀ n ∈ c.writtenNames, location (Path.join "out" n) = ["out", n] := by decide +kernel
  have hlist : ∀ n ∈ c.writtenNames, ¬c.WouldList source (location (Path.join "out" n)) := by
    rintro n hn ⟨m, -, heq⟩
    have hlong := congrArg List.length heq
    rw [hnames n hn, hsource, location_join hname, hloc] at hlong
    simp at hlong
  have hfile : tree.at? (location "out" ++ [c.clientFile ++ ".tmp"]) = some (.file "old".toUTF8) := by
    rw [hloc]
    exact congrArg (Option.bind · _) List.lookup_cons_self
  have hfree : ∀ n ∈ c.writtenNames, ¬tree.IsFolderAt (location "out" ++ [n]) := by
    rintro n - ⟨inside, hat⟩
    rw [hloc] at hat
    obtain ⟨u, hu, hat⟩ := Option.bind_eq_some_iff.1 hat
    cases List.mem_singleton.1 (mem_of_lookup_eq_some hu)
    obtain ⟨v, hv, hat⟩ := Option.bind_eq_some_iff.1 hat
    cases List.mem_singleton.1 (mem_of_lookup_eq_some hv)
    cases hat
  have hl : tree.list source = .ok [] := by
    unfold FileTree.list
    rw [hsource, place_join ht.linkFree ht.root hname ho true]
    unfold entryPlace
    rw [hfile]
  obtain ⟨g, t', h, hw, ht', ho', hleft⟩ := generate_of_free hc ht htidy hl ho hfree
  refine ⟨hc, ht, htidy, hlist, g, t', h, hw, ?_⟩
  -- the client's temporary file has been moved away
  have hgone : t'.at? (location "out" ++ [c.clientFile ++ ".tmp"]) = none := by
    rw [hleft _ (by decide +kernel)]
    rfl
  have hl' : t'.list source = .error .missing := by
    unfold FileTree.list
    rw [hsource, place_join ht'.linkFree ht'.root hname ho' true]
    unfold entryPlace
    rw [hgone]
  exact generate_of_list_error hc hl' "out"

end ResourceClient
