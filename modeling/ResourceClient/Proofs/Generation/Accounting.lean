/-
The accounts of a run: every source of the folder ends in exactly one place of the report. The sources
that count are told apart by their own outcomes into endpoints, unroutable components and failures, and
the later sources of a name are failures before them; each list follows the listing, whatever the order
of the entries, the files that cannot be read and the names that collide.

A run is looked at in any system at rest. There it is a function of the entries and of the contents of
the files (`run_eq`), and the accounts are a property of this function.
-/
import ResourceClient.Generation.Run
import ResourceClient.Proofs.Files.Folders
import ResourceClient.Proofs.Generation.Listing
import ResourceClient.Proofs.Generation.Output
import ResourceClient.Proofs.Text.ByteOrder
import Mathlib

namespace ResourceClient

open Generation

/-! ## A run on a system at rest -/

/-- A system at rest, with a folder in it: listing and reading leave its state alone. The entries of the
folder come in any order; they have distinct names, and no name has a slash. -/
structure AtRest {σ : Type} [FileStore (StateM σ)] (state : σ) (folder : String) (entries : List Entry)
    (content : String → Except FileError ByteArray) : Prop where
  list : (FileStore.list folder : StateM σ _) state = (.ok entries, state)
  read : ∀ path, (FileStore.read path : StateM σ _) state = (content path, state)
  distinct : (entries.map (·.name)).Nodup
  plain : ∀ e ∈ entries, '/' ∉ e.name.toList

/-- A tree of files is at rest. -/
theorem FileTree.atRest {t : FileTree} {folder : String} {entries : List Entry} (hl : t.list folder = .ok entries)
    (hd : (entries.map (·.name)).Nodup) (hp : ∀ e ∈ entries, '/' ∉ e.name.toList) :
    AtRest t folder entries t.read where
  list := by rw [← hl]; rfl
  read _ := rfl
  distinct := hd
  plain := hp

/-- What reading gives for the text of a file with some content, or without. -/
def textOf (content : Except FileError ByteArray) : Except FileError String :=
  content.bind decodeText

/-- The outcome of a source among files with some contents. -/
def outcomeIn (c : Config) (content : String → Except FileError ByteArray) (s : SourceFile) : Outcome :=
  outcome c s (textOf (content s.path))

/-- The generation of a run, from its sources and the contents of the files. -/
def Generation.ofSources (c : Config) (serviceName : String) (content : String → Except FileError ByteArray)
    (sources : List SourceFile) : Generation :=
  .ofOutcomes serviceName (SourceFile.duplicates [] sources)
    ((SourceFile.distinct [] sources).map fun s => (s, outcomeIn c content s))

section

variable {σ : Type} [FileStore (StateM σ)] {state : σ} {content : String → Except FileError ByteArray}
  {c : Config} {folder serviceName : String} {entries : List Entry}

theorem readText_eq (h : AtRest state folder entries content) (path : String) :
    (readText path : StateM σ _) state = (textOf (content path), state) := by
  unfold readText
  rw [bind_run, h.read path]
  cases content path <;> rfl

/-- The outcomes of sources are those of their own texts, in order. -/
theorem mapM_outcome (h : AtRest state folder entries content) (ss : List SourceFile) :
    (ss.mapM fun s => do return (s, outcome c s (← readText s.path)) : StateM σ _) state =
      (ss.map fun s => (s, outcomeIn c content s), state) := by
  induction ss with
  | nil => rfl
  | cons s ss ih =>
    have one : (do return (s, outcome c s (← readText s.path)) : StateM σ _) state =
        ((s, outcomeIn c content s), state) := by
      rw [bind_run, readText_eq h]
      rfl
    rw [List.mapM_cons, bind_run, one, bind_run, ih]
    rfl

theorem listSources_eq (h : AtRest state folder entries content) :
    (listSources c folder : StateM σ _) state = (.ok (SourceFile.ofEntries c folder entries), state) := by
  unfold listSources
  rw [bind_run, h.list]
  rfl

/-- Distinct names in one folder have distinct paths. -/
theorem AtRest.nodup_paths (h : AtRest state folder entries content) (c : Config) :
    ((SourceFile.ofEntries c folder entries).map (·.path)).Nodup := by
  rw [SourceFile.ofEntries_eq]
  refine SourceFile.nodup_paths ?_ fun n hn => h.plain _ (SourceFile.mem_sourceNames.1 hn).1
  exact (SourceFile.sourceNames_pairwise h.distinct).imp fun hab => Std.ne_of_lt hab

/-- A run lists the folder, reads each source that counts, and leaves the system as it is. -/
theorem run_eq (hc : c.validate = .ok serviceName) (h : AtRest state folder entries content) :
    (run c folder : StateM σ _) state =
      (.ok (.ofSources c serviceName content (SourceFile.ofEntries c folder entries)), state) := by
  unfold run
  rw [hc]
  simp only
  rw [bind_run, listSources_eq h]
  simp only
  rw [bind_run, mapM_outcome h]
  rfl

end

/-! ## Outcomes of the sources that count -/

/-- Where an outcome puts its source. -/
inductive Standing
  | routed
  | unrouted
  | broken
  deriving DecidableEq, Repr

def Generation.Outcome.standing : Outcome → Standing
  | .ok o => if o.isEmpty then .unrouted else .routed
  | .error _ => .broken

section

variable (c : Config) (content : String → Except FileError ByteArray)

/-- The sources of one standing, in order. -/
def standingAt (p : Standing) (ss : List SourceFile) : List SourceFile :=
  ss.filter fun s => (outcomeIn c content s).standing = p

variable {c content} {s : SourceFile} {ss : List SourceFile} {o : EndpointOutput}

theorem standingAt_cons (p : Standing) : standingAt c content p (s :: ss) =
    if (outcomeIn c content s).standing = p then s :: standingAt c content p ss
    else standingAt c content p ss := by
  unfold standingAt
  by_cases h : (outcomeIn c content s).standing = p
  · rw [List.filter_cons_of_pos (by simpa using h), if_pos h]
  · rw [List.filter_cons_of_neg (by simpa using h), if_neg h]

/-- Each source has one standing. -/
theorem standingAt_perm (c : Config) (content : String → Except FileError ByteArray) (ss : List SourceFile) :
    (standingAt c content .routed ss ++ standingAt c content .unrouted ss ++
      standingAt c content .broken ss).Perm ss := by
  induction ss with
  | nil => exact List.Perm.nil
  | cons s ss ih =>
    rw [standingAt_cons, standingAt_cons, standingAt_cons]
    -- a source goes to the front of its own list, which stands first, second or third
    rcases h : (outcomeIn c content s).standing with _ | _ | _ <;>
      simp only [reduceCtorEq, ↓reduceIte, List.cons_append]
    · exact ih.cons s
    · rw [List.append_assoc, List.cons_append] at *
      exact List.perm_middle.trans (ih.cons s)
    · exact List.perm_middle.trans (ih.cons s)

/-- An output is generated from the text of its source. -/
theorem exists_generateUnit (h : outcomeIn c content s = .ok o) :
    ∃ text, generateUnit c.emitOptions (!c.isExcluded s.name) s.name text = .ok o := by
  unfold outcomeIn outcome at h
  split at h
  · cases h
  · rename_i text _
    refine ⟨text, ?_⟩
    rcases hg : generateUnit c.emitOptions (!c.isExcluded s.name) s.name text with e | u <;> rw [hg] at h <;>
      cases h
    rfl

theorem name_of_outcomeIn (h : outcomeIn c content s = .ok o) : o.name = s.name := by
  obtain ⟨_, hg⟩ := exists_generateUnit h
  exact EndpointOutput.name_of_generateUnit hg

theorem declaration_of_outcomeIn (h : outcomeIn c content s = .ok o) (hne : o.isEmpty = false) :
    (o.declaration == "") = c.isExcluded s.name := by
  obtain ⟨_, hg⟩ := exists_generateUnit h
  rw [EndpointOutput.declaration_of_generateUnit hg hne, Bool.not_not]

/-- An output that adds to the client is that of an endpoint of its source. -/
theorem ofEndpoint_of_outcomeIn (h : outcomeIn c content s = .ok o) (hne : o.isEmpty = false) :
    ∃ e : Endpoint, e.name = s.name ∧ o = .ofEndpoint c.emitOptions (!c.isExcluded s.name) e := by
  obtain ⟨_, hg⟩ := exists_generateUnit h
  refine (EndpointOutput.of_generateUnit hg).resolve_left fun ho => ?_
  rw [ho] at hne
  cases hne

theorem outputs_of_standing (c : Config) (content : String → Except FileError ByteArray) (ss : List SourceFile) :
    List.Forall₂ (fun s o => outcomeIn c content s = .ok o ∧ o.isEmpty = false) (standingAt c content .routed ss)
      ((ss.map fun s => (s, outcomeIn c content s)).filterMap routable?) := by
  induction ss with
  | nil => exact .nil
  | cons s ss ih =>
    rw [standingAt_cons, List.map_cons]
    rcases h : outcomeIn c content s with e | o
    · exact ih
    · rcases he : o.isEmpty with _ | _
      · rw [List.filterMap_cons_some (by simp [routable?, he] : _ = some o)]
        simp only [Outcome.standing, he, Bool.false_eq_true, ↓reduceIte]
        exact .cons ⟨h, he⟩ ih
      · rw [List.filterMap_cons_none (by simp [routable?, he])]
        simpa only [Outcome.standing, he, ↓reduceIte, reduceCtorEq] using ih

theorem unroutable_of_standing (c : Config) (content : String → Except FileError ByteArray)
    (ss : List SourceFile) :
    (ss.map fun s => (s, outcomeIn c content s)).filterMap unroutable? =
      (standingAt c content .unrouted ss).map (·.name) := by
  induction ss with
  | nil => rfl
  | cons s ss ih =>
    rw [standingAt_cons, List.map_cons]
    rcases h : outcomeIn c content s with e | o
    · exact ih
    · rcases he : o.isEmpty with _ | _
      · rw [List.filterMap_cons_none (by simp [unroutable?, he])]
        simpa only [Outcome.standing, he, Bool.false_eq_true, ↓reduceIte, reduceCtorEq] using ih
      · rw [List.filterMap_cons_some (by simp [unroutable?, he] : _ = some o.name)]
        simp only [Outcome.standing, he, ↓reduceIte, List.map_cons]
        rw [ih, name_of_outcomeIn h]

theorem failures_of_standing (ss : List SourceFile) :
    List.Forall₂ (fun s f => f.endpoint = s.name ∧ f.path = s.path ∧ outcomeIn c content s = .error f.error)
      (standingAt c content .broken ss)
      ((ss.map fun s => (s, outcomeIn c content s)).filterMap failure?) := by
  induction ss with
  | nil => exact .nil
  | cons s ss ih =>
    rw [standingAt_cons, List.map_cons]
    rcases h : outcomeIn c content s with e | o
    · exact .cons ⟨rfl, rfl, h⟩ ih
    · have hb : ¬(Outcome.standing (.ok o) = .broken) := by
        rcases he : o.isEmpty with _ | _ <;> simp [Outcome.standing, he]
      rw [List.filterMap_cons_none rfl, if_neg hb]
      exact ih

theorem unrouted_of_mem (h : s ∈ standingAt c content .unrouted ss) :
    ∃ o, outcomeIn c content s = .ok o ∧ o.isEmpty = true := by
  have hs : (outcomeIn c content s).standing = .unrouted := by simpa using (List.mem_filter.1 h).2
  rcases ho : outcomeIn c content s with e | o <;> rw [ho] at hs
  · cases hs
  · refine ⟨o, rfl, ?_⟩
    by_contra he
    rw [Outcome.standing, if_neg he] at hs
    cases hs

end

/-! ## The accounts -/

/-- The accounts of a run over the sources of a folder: the sources that are in the client, those without
a URI, the later ones of a name, each with the first one, and those that fail. -/
structure Accounts (c : Config) (content : String → Except FileError ByteArray) (sources : List SourceFile)
    (g : Generation) (routed unrouted : List SourceFile) (repeated : List (SourceFile × SourceFile))
    (broken : List SourceFile) : Prop where
  /-- Every source stands in one of the lists, and only once. -/
  perm : (routed ++ unrouted ++ repeated.map (·.1) ++ broken).Perm sources
  nodup : (sources.map (·.path)).Nodup
  /-- Each list follows the listing. -/
  sublist : ∀ ss ∈ [routed, unrouted, repeated.map (·.1), broken], ss.Sublist sources
  /-- What is repeated is decided by the names alone. -/
  repeated_iff : ∀ s, s ∈ repeated.map (·.1) ↔
    ∃ before after, sources = before ++ s :: after ∧ ∃ t ∈ before, t.name = s.name
  first : ∀ d ∈ repeated, sources.find? (·.name == d.1.name) = some d.2
  outputs : List.Forall₂ (fun s o => outcomeIn c content s = .ok o ∧ o.isEmpty = false) routed g.outputs
  output_names : g.outputs.map (·.name) = g.report.endpoints
  endpoints : g.report.endpoints = routed.map (·.name)
  unroutable : g.report.unroutable = unrouted.map (·.name)
  empty : ∀ s ∈ unrouted, ∃ o, outcomeIn c content s = .ok o ∧ o.isEmpty = true
  /-- The failures are the repeated sources, and then the sources that fail by themselves. -/
  failures : ∃ failed, g.report.failures = repeated.map duplicateFailure ++ failed ∧
    List.Forall₂ (fun s f => f.endpoint = s.name ∧ f.path = s.path ∧ outcomeIn c content s = .error f.error)
      broken failed
  distinct : (g.report.endpoints ++ g.report.unroutable).Nodup
  untyped : g.report.untyped = g.report.endpoints.filter c.isExcluded

variable {c : Config} {content : String → Except FileError ByteArray} {sources : List SourceFile}
  {serviceName : String}

/-- The names of the outputs are those of the sources they come from. -/
theorem map_name_of_outputs {routed : List SourceFile} {outputs : List EndpointOutput}
    (h : List.Forall₂ (fun s o => outcomeIn c content s = .ok o ∧ o.isEmpty = false) routed outputs) :
    outputs.map (·.name) = routed.map (·.name) := by
  induction h with
  | nil => rfl
  | cons h _ ih => rw [List.map_cons, List.map_cons, ih, name_of_outcomeIn h.1]

theorem mem_of_outputs {routed : List SourceFile} {outputs : List EndpointOutput} {o : EndpointOutput}
    (h : List.Forall₂ (fun s o => outcomeIn c content s = .ok o ∧ o.isEmpty = false) routed outputs)
    (ho : o ∈ outputs) : ∃ s, outcomeIn c content s = .ok o ∧ o.isEmpty = false := by
  induction h with
  | nil => cases ho
  | @cons s _ _ _ h _ ih =>
    rcases List.mem_cons.1 ho with rfl | ho
    · exact ⟨s, h⟩
    · exact ih ho

/-- The outputs of a generation are those of endpoints, each of the name of its source. -/
theorem ofEndpoint_of_mem_outputs {o : EndpointOutput}
    (ho : o ∈ (Generation.ofSources c serviceName content sources).outputs) :
    ∃ e : Endpoint, e.name = o.name ∧ o = .ofEndpoint c.emitOptions (!c.isExcluded o.name) e := by
  obtain ⟨s, hs, hne⟩ := mem_of_outputs (outputs_of_standing c content (SourceFile.distinct [] sources)) ho
  rw [name_of_outcomeIn hs]
  exact ofEndpoint_of_outcomeIn hs hne

/-- The outputs without a declaration are those of the names on the exclusion list. -/
theorem untyped_of_outputs {routed : List SourceFile} {outputs : List EndpointOutput}
    (h : List.Forall₂ (fun s o => outcomeIn c content s = .ok o ∧ o.isEmpty = false) routed outputs) :
    (outputs.filter (·.declaration == "")).map (·.name) = (outputs.map (·.name)).filter c.isExcluded := by
  rw [List.filter_map]
  congr 1
  refine List.filter_congr fun o ho => ?_
  obtain ⟨s, hs, hne⟩ := mem_of_outputs h ho
  rw [declaration_of_outcomeIn hs hne, Function.comp_apply, name_of_outcomeIn hs]

/-- The accounts of the generation from a list of sources with distinct paths. -/
theorem accounts_ofSources (c : Config) (serviceName : String) (content : String → Except FileError ByteArray)
    (hn : (sources.map (·.path)).Nodup) :
    ∃ routed unrouted repeated broken, Accounts c content sources (.ofSources c serviceName content sources)
      routed unrouted repeated broken := by
  have hd := SourceFile.distinct_sublist [] sources
  have hp := standingAt_perm c content (SourceFile.distinct [] sources)
  have ho := outputs_of_standing c content (SourceFile.distinct [] sources)
  have hu := unroutable_of_standing c content (SourceFile.distinct [] sources)
  have hnames := map_name_of_outputs ho
  have hfirst : ∀ d ∈ SourceFile.duplicates [] sources, sources.find? (·.name == d.1.name) = some d.2 := by
    intro d hd
    have hnil : (([] : List SourceFile).map (·.name)).Nodup := List.nodup_nil
    exact SourceFile.find?_of_mem_duplicates hnil hd
  refine ⟨_, _, SourceFile.duplicates [] sources, _, ?_, hn, ?_, fun s => SourceFile.mem_duplicates_iff, hfirst,
    ho, rfl, hnames, hu, fun s => unrouted_of_mem, ⟨_, rfl, failures_of_standing _⟩, ?_, untyped_of_outputs ho⟩
  · -- the repeated sources stand before the broken ones
    refine List.Perm.trans ?_ (SourceFile.distinct_append_duplicates_perm [] sources)
    rw [List.append_assoc]
    refine (List.perm_append_comm.append_left _).trans ?_
    rw [← List.append_assoc]
    exact hp.append_right _
  · intro ss hss
    simp only [List.mem_cons, List.not_mem_nil, or_false] at hss
    rcases hss with rfl | rfl | rfl | rfl
    · exact List.filter_sublist.trans hd
    · exact List.filter_sublist.trans hd
    · exact SourceFile.duplicates_sublist [] sources
    · exact List.filter_sublist.trans hd
  · -- the sources that count have distinct names, and these two lists are among them
    show (List.map _ _ ++ _).Nodup
    have hall := ((hp.map (·.name)).nodup_iff).2 (SourceFile.distinct_names [] sources).1
    rw [List.map_append, List.map_append] at hall
    rw [hnames]
    show (_ ++ List.filterMap _ _).Nodup
    rw [hu]
    exact (List.nodup_append.1 hall).1

/-- A run over a folder in a system at rest succeeds. Its sources are the files of the folder that are not
hidden and have a source extension, by the bytes of their names, and each of them is accounted for. -/
theorem run_accounts {σ : Type} [FileStore (StateM σ)] {state : σ} {folder : String} {entries : List Entry}
    (hc : c.validate = .ok serviceName) (h : AtRest state folder entries content) :
    ∃ (names : List String) (g : Generation) (routed unrouted : List SourceFile)
      (repeated : List (SourceFile × SourceFile)) (broken : List SourceFile),
      (run c folder : StateM σ _) state = (.ok g, state) ∧
      (listSources c folder : StateM σ _) state = (.ok (names.map (SourceFile.ofName folder)), state) ∧
      names.Pairwise (fun a b => Text.bytes a < Text.bytes b) ∧
      (∀ n, n ∈ names ↔ ⟨n, true⟩ ∈ entries ∧ n.toList.head? ≠ some '.' ∧ c.accepts n = true) ∧
      g.report.serviceName = serviceName ∧
      Accounts c content (names.map (SourceFile.ofName folder)) g routed unrouted repeated broken := by
  have hlt : (SourceFile.sourceNames c entries).Pairwise (· < ·) := SourceFile.sourceNames_pairwise h.distinct
  have hmem : ∀ n, n ∈ SourceFile.sourceNames c entries ↔
      ⟨n, true⟩ ∈ entries ∧ n.toList.head? ≠ some '.' ∧ c.accepts n = true :=
    fun n => SourceFile.mem_sourceNames
  -- distinct names in one folder have distinct paths
  have hpaths : ((SourceFile.sourceNames c entries).map (SourceFile.ofName folder) |>.map (·.path)).Nodup := by
    refine SourceFile.nodup_paths (hlt.imp fun hab => Std.ne_of_lt hab) fun n hn => ?_
    exact h.plain _ ((hmem n).1 hn).1
  obtain ⟨routed, unrouted, repeated, broken, ha⟩ := accounts_ofSources c serviceName content hpaths
  refine ⟨SourceFile.sourceNames c entries, _, routed, unrouted, repeated, broken, run_eq hc h, ?_,
    hlt.imp Text.bytes_lt_bytes_iff.2, hmem, rfl, ?_⟩
  · rw [listSources_eq h, SourceFile.ofEntries_eq]
  · rw [SourceFile.ofEntries_eq]
    exact ha

/-- A folder in which two files have one endpoint name, and a third is no component. -/
def twins : FileTree :=
  .folder [("src", .folder [
    ("a-b.cfc", .file "<cfcomponent taffy_uri=\"/a\"></cfcomponent>".toUTF8),
    ("a_b.cfc", .file "<cfcomponent></cfcomponent>".toUTF8),
    ("c.cfc", .file "</cffunction>".toUTF8),
    ("old.cfc", .folder [])])]

theorem run_accounts_twins :
    Config.validate { serviceName := some "Api" } = .ok "Api" ∧
    AtRest twins "src" [⟨"a-b.cfc", true⟩, ⟨"a_b.cfc", true⟩, ⟨"c.cfc", true⟩, ⟨"old.cfc", false⟩] twins.read ∧
    ∃ g, (run { serviceName := some "Api" } "src" : TreeM _) twins = (.ok g, twins) ∧
      (g.report.endpoints ++ g.report.unroutable).Nodup := by
  have hc : Config.validate { serviceName := some "Api" } = .ok "Api" := by decide +kernel
  have h : AtRest twins "src" [⟨"a-b.cfc", true⟩, ⟨"a_b.cfc", true⟩, ⟨"c.cfc", true⟩, ⟨"old.cfc", false⟩]
      twins.read :=
    FileTree.atRest (by cbv) (by decide) (by decide)
  refine ⟨hc, h, ?_⟩
  obtain ⟨_, g, _, _, _, _, hg, -, -, -, -, ha⟩ := run_accounts hc h
  exact ⟨g, hg, ha.distinct⟩

end ResourceClient
