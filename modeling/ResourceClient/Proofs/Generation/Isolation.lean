/-
Two runs over folders that differ in the bytes of one file. What the other files contribute is the same in
both, in the same order: each list of the report and each generated file is cut around the part of that
one file, and a file whose endpoint another one has taken has no part at all.
-/
import ResourceClient.Proofs.Artifact.Layout
import ResourceClient.Proofs.Generation.Accounting

namespace ResourceClient

open Generation

/-! ## Lists that agree but for the entries of one owner -/

/-- Two lists that are alike around the one entry of an owner, which each of them may have or lack. -/
structure AgreeOff {α : Type} (own : α → Bool) (xs ys : List α) : Prop where
  once : (xs.filter own).length ≤ 1 ∧ (ys.filter own).length ≤ 1
  split : ∃ before after, xs = before ++ xs.filter own ++ after ∧ ys = before ++ ys.filter own ++ after

namespace AgreeOff

variable {α β : Type} {own : α → Bool} {own' : β → Bool} {xs ys zs : List α}

/-- An owner's entries in front of others' and behind them are all there are. -/
theorem filter_append_cons {before after : List α} {x : α} (hx : own x = true)
    (h : ∀ z ∈ before ++ after, own z = false) : (before ++ x :: after).filter own = [x] := by
  have hnone : ∀ zs : List α, (∀ z ∈ zs, own z = false) → zs.filter own = [] := fun zs hz =>
    List.filter_eq_nil_iff.2 fun z hmem => by simp [hz z hmem]
  rw [List.filter_append, List.filter_cons_of_pos hx, hnone before fun z hz => h z (List.mem_append_left _ hz),
    hnone after fun z hz => h z (List.mem_append_right _ hz), List.nil_append]

/-- Lists that differ in one entry, which is the owner's in both. -/
theorem of_replaced {before after : List α} {x y : α} (hx : own x = true) (hy : own y = true)
    (h : ∀ z ∈ before ++ after, own z = false) : AgreeOff own (before ++ x :: after) (before ++ y :: after) where
  once := by rw [filter_append_cons hx h, filter_append_cons hy h]; exact ⟨le_rfl, le_rfl⟩
  split := ⟨before, after, by rw [filter_append_cons hx h]; simp, by rw [filter_append_cons hy h]; simp⟩

/-- Choosing from lists keeps their agreement, when what is chosen has the owner it is chosen from. -/
theorem filterMap {f : α → Option β} (h : AgreeOff own xs ys)
    (ho : ∀ a ∈ xs ++ ys, ∀ b, f a = some b → own' b = own a) :
    AgreeOff own' (xs.filterMap f) (ys.filterMap f) := by
  obtain ⟨⟨hx, hy⟩, before, after, hxs, hys⟩ := h
  have hfilter : ∀ zs : List α, (∀ a ∈ zs, a ∈ xs ++ ys) →
      (zs.filterMap f).filter own' = (zs.filter own).filterMap f := by
    intro zs hz
    induction zs with
    | nil => rfl
    | cons z zs ih =>
      have hih := ih fun a ha => hz a (List.mem_cons_of_mem _ ha)
      rcases hfz : f z with _ | b
      · rw [List.filterMap_cons_none hfz, hih]
        cases hz' : own z
        · rw [List.filter_cons_of_neg (by simp [hz'])]
        · rw [List.filter_cons_of_pos hz', List.filterMap_cons_none hfz]
      · have hb : own' b = own z := ho z (hz z List.mem_cons_self) b hfz
        rw [List.filterMap_cons_some hfz]
        cases hz' : own z
        · rw [List.filter_cons_of_neg (by simp [hb, hz']), List.filter_cons_of_neg (by simp [hz']), hih]
        · rw [List.filter_cons_of_pos (by rw [hb, hz']), List.filter_cons_of_pos hz',
            List.filterMap_cons_some hfz, hih]
  have hfx := hfilter xs fun a ha => List.mem_append_left _ ha
  have hfy := hfilter ys fun a ha => List.mem_append_right _ ha
  refine ⟨⟨?_, ?_⟩, before.filterMap f, after.filterMap f, ?_, ?_⟩
  · rw [hfx]
    exact (List.length_filterMap_le _ _).trans hx
  · rw [hfy]
    exact (List.length_filterMap_le _ _).trans hy
  · rw [hfx, ← List.filterMap_append, ← List.filterMap_append, ← hxs]
  · rw [hfy, ← List.filterMap_append, ← List.filterMap_append, ← hys]

theorem map {f : α → β} (h : AgreeOff own xs ys) (ho : ∀ a ∈ xs ++ ys, own' (f a) = own a) :
    AgreeOff own' (xs.map f) (ys.map f) := by
  rw [← congrFun List.filterMap_eq_map xs, ← congrFun List.filterMap_eq_map ys]
  refine h.filterMap fun a ha b hb => ?_
  cases hb
  exact ho a ha

theorem filter (h : AgreeOff own xs ys) (p : α → Bool) : AgreeOff own (xs.filter p) (ys.filter p) := by
  rw [← List.filterMap_eq_filter]
  refine h.filterMap fun a _ b hb => ?_
  rw [(Option.guard_eq_some_iff.1 hb).1]

/-- Entries of others in front do not change the agreement. -/
theorem append_left (h : AgreeOff own xs ys) (hz : ∀ z ∈ zs, own z = false) : AgreeOff own (zs ++ xs) (zs ++ ys) := by
  obtain ⟨once, before, after, hxs, hys⟩ := h
  have hnone : zs.filter own = [] := List.filter_eq_nil_iff.2 fun z hmem => by simp [hz z hmem]
  refine ⟨?_, zs ++ before, after, ?_, ?_⟩
  · rwa [List.filter_append, List.filter_append, hnone, List.nil_append, List.nil_append]
  · rw [List.filter_append, hnone, List.nil_append, List.append_assoc, List.append_assoc, ← List.append_assoc before,
      ← hxs]
  · rw [List.filter_append, hnone, List.nil_append, List.append_assoc, List.append_assoc, ← List.append_assoc before,
      ← hys]

/-- The entries of others are the same, in the same order. -/
theorem others (h : AgreeOff own xs ys) : xs.filter (!own ·) = ys.filter (!own ·) := by
  obtain ⟨-, before, after, hxs, hys⟩ := h
  have hnone : ∀ zs : List α, (zs.filter own).filter (!own ·) = [] := fun zs =>
    List.filter_eq_nil_iff.2 fun z hz => by simp [(List.mem_filter.1 hz).2]
  rw [hxs, hys]
  simp only [List.filter_append, hnone]

end AgreeOff

/-! ## Generations that agree but for one source -/

/-- Whether a source is the first of its name in a listing. -/
def SourceFile.Leads (s : SourceFile) (sources : List SourceFile) : Prop :=
  sources.find? (·.name == s.name) = some s

/-- The outputs of a run that come from a source. -/
def Generation.outputsOf (g : Generation) (s : SourceFile) : List EndpointOutput :=
  g.outputs.filter (·.name == s.name)

/-- The outputs of a run that come from other sources. -/
def Generation.outputsOff (g : Generation) (s : SourceFile) : List EndpointOutput :=
  g.outputs.filter (!·.name == s.name)

/-- The files of a run. -/
def Generation.artifacts (c : Config) (g : Generation) : Artifacts :=
  .assemble c g.report.serviceName g.outputs

/-- The interfaces file of a run, cut around the section of a source. -/
def InterfacesCut (c : Config) (s : SourceFile) (before after : String) (g : Generation) : Prop :=
  (g.artifacts c).interfaces = before ++ Artifacts.sections (g.outputsOf s) ++ after

/-- The client file of a run, cut around the field line and the registration line of a source, and around
the blank line that ends the fields. -/
def ClientCut (c : Config) (s : SourceFile) (before fields registrations after : String) (g : Generation) : Prop :=
  (g.artifacts c).client =
    before ++ String.join ((g.outputsOf s).map Artifacts.fieldLine) ++ fields ++ Artifacts.fieldsEnd g.outputs ++
      Artifacts.constructorLine ++ registrations ++ Artifacts.registrationLines (g.outputsOf s) ++ after

/-- Two runs that agree in all that does not come from one source. -/
structure Isolated (c : Config) (s : SourceFile) (g g' : Generation) : Prop where
  serviceName : g.report.serviceName = g'.report.serviceName
  outputs : AgreeOff (·.name == s.name) g.outputs g'.outputs
  endpoints : AgreeOff (· == s.name) g.report.endpoints g'.report.endpoints
  untyped : AgreeOff (· == s.name) g.report.untyped g'.report.untyped
  unroutable : AgreeOff (· == s.name) g.report.unroutable g'.report.unroutable
  failures : AgreeOff (·.path == s.path) g.report.failures g'.report.failures
  interfaces : ∃ before after, InterfacesCut c s before after g ∧ InterfacesCut c s before after g'
  client : ∃ before fields registrations after, ClientCut c s before fields registrations after g ∧
    ClientCut c s before fields registrations after g'
  /-- The fields end alike, unless the source is the only one that has any. -/
  fieldsEnd : g.outputsOff s ≠ [] → Artifacts.fieldsEnd g.outputs = Artifacts.fieldsEnd g'.outputs

section

variable {c : Config} {serviceName : String} {content content' : String → Except FileError ByteArray}
  {sources : List SourceFile} {s t : SourceFile}

theorem SourceFile.leads_iff_mem_distinct : s.Leads sources ↔ s ∈ distinct [] sources := by
  rw [mem_distinct_iff]
  simp [Leads]

/-- Among the sources that count the name tells the source. -/
theorem SourceFile.beq_name_of_leads (hs : s.Leads sources) (ht : t ∈ distinct [] sources) :
    (t.name == s.name) = (t == s) := by
  rw [leads_iff_mem_distinct] at hs
  rw [Bool.eq_iff_iff, beq_iff_eq, beq_iff_eq]
  constructor
  · exact fun h => List.inj_on_of_nodup_map (distinct_names [] sources).1 ht hs h
  · exact fun h => by rw [h]

theorem SourceFile.beq_path (hn : (sources.map (·.path)).Nodup) (hs : s ∈ sources) (ht : t ∈ sources) :
    (t.path == s.path) = (t == s) := by
  rw [Bool.eq_iff_iff, beq_iff_eq, beq_iff_eq]
  constructor
  · exact fun h => List.inj_on_of_nodup_map hn ht hs h
  · exact fun h => by rw [h]

/-- The outcomes of the sources that count. -/
def outcomesIn (c : Config) (content : String → Except FileError ByteArray) (sources : List SourceFile) :
    List (SourceFile × Outcome) :=
  (SourceFile.distinct [] sources).map fun t => (t, outcomeIn c content t)

theorem mem_outcomesIn {a : SourceFile × Outcome} (h : a ∈ outcomesIn c content sources) :
    a.1 ∈ SourceFile.distinct [] sources ∧ outcomeIn c content a.1 = a.2 := by
  obtain ⟨t, ht, rfl⟩ := List.mem_map.1 h
  exact ⟨ht, rfl⟩

theorem outcomeIn_congr (h : content t.path = content' t.path) : outcomeIn c content t = outcomeIn c content' t := by
  unfold outcomeIn
  rw [h]

/-- Contents that differ in one source make no difference when another source has taken its name. -/
theorem ofSources_congr (hs : ¬s.Leads sources) (hc : ∀ t ∈ sources, t ≠ s → content t.path = content' t.path) :
    Generation.ofSources c serviceName content sources = .ofSources c serviceName content' sources := by
  unfold Generation.ofSources
  congr 1
  refine List.map_congr_left fun t ht => ?_
  have hts : t ≠ s := fun h => hs (SourceFile.leads_iff_mem_distinct.2 (h ▸ ht))
  rw [outcomeIn_congr (hc t ((SourceFile.distinct_sublist [] sources).subset ht) hts)]

/-- Contents that differ in one source give outcomes that differ in that source. -/
theorem outcomesIn_agreeOff (hs : s.Leads sources)
    (hc : ∀ t ∈ sources, t ≠ s → content t.path = content' t.path) :
    AgreeOff (·.1 == s) (outcomesIn c content sources) (outcomesIn c content' sources) := by
  obtain ⟨before, after, hd⟩ := List.append_of_mem (SourceFile.leads_iff_mem_distinct.1 hs)
  have hnodup : (before ++ s :: after).Nodup := by
    rw [← hd]
    exact (SourceFile.distinct_names [] sources).1.of_map _
  have hother : ∀ t ∈ before ++ after, t ≠ s := by
    rintro t ht rfl
    exact (List.nodup_cons.1 (List.nodup_middle.1 hnodup)).1 ht
  have hsame : ∀ ts : List SourceFile, (∀ t ∈ ts, t ∈ before ++ after) →
      ts.map (fun t => (t, outcomeIn c content' t)) = ts.map (fun t => (t, outcomeIn c content t)) := by
    refine fun ts hts => List.map_congr_left fun t ht => ?_
    have hmem : t ∈ sources := by
      refine (SourceFile.distinct_sublist [] sources).subset ?_
      rw [hd]
      rcases List.mem_append.1 (hts t ht) with h | h
      · exact List.mem_append_left _ h
      · exact List.mem_append_right _ (List.mem_cons_of_mem _ h)
    rw [outcomeIn_congr (hc t hmem (hother t (hts t ht)))]
  unfold outcomesIn
  rw [hd, List.map_append, List.map_cons, List.map_append, List.map_cons,
    hsame before fun t => List.mem_append_left _, hsame after fun t => List.mem_append_right _]
  refine AgreeOff.of_replaced (beq_self_eq_true s) (beq_self_eq_true s) fun z hz => ?_
  rw [← List.map_append] at hz
  obtain ⟨t, ht, rfl⟩ := List.mem_map.1 hz
  exact beq_eq_false_iff_ne.2 (hother t ht)

/-- The lists of two reports agree when the outcomes they are chosen from differ in one source. -/
theorem agreeOff_of_choice {α : Type} {choose : SourceFile × Outcome → Option α} {own : α → Bool}
    (h : AgreeOff (·.1 == s) (outcomesIn c content sources) (outcomesIn c content' sources))
    (ho : ∀ t r b, t ∈ SourceFile.distinct [] sources →
      (outcomeIn c content t = r ∨ outcomeIn c content' t = r) → choose (t, r) = some b → own b = (t == s)) :
    AgreeOff own ((outcomesIn c content sources).filterMap choose)
      ((outcomesIn c content' sources).filterMap choose) := by
  refine h.filterMap fun a ha b hb => ?_
  rcases List.mem_append.1 ha with ha | ha
  · exact ho a.1 a.2 b (mem_outcomesIn ha).1 (.inl (mem_outcomesIn ha).2) hb
  · exact ho a.1 a.2 b (mem_outcomesIn ha).1 (.inr (mem_outcomesIn ha).2) hb

theorem outputs_agreeOff (hs : s.Leads sources)
    (hc : ∀ t ∈ sources, t ≠ s → content t.path = content' t.path) :
    AgreeOff (·.name == s.name) ((outcomesIn c content sources).filterMap routable?)
      ((outcomesIn c content' sources).filterMap routable?) := by
  refine agreeOff_of_choice (outcomesIn_agreeOff hs hc) fun t r o ht hr ho => ?_
  rcases r with e | u
  · cases ho
  · obtain ⟨-, rfl⟩ : u.isEmpty = false ∧ u = o := by simpa [routable?] using ho
    rw [hr.elim name_of_outcomeIn name_of_outcomeIn, SourceFile.beq_name_of_leads hs ht]

theorem unroutable_agreeOff (hs : s.Leads sources)
    (hc : ∀ t ∈ sources, t ≠ s → content t.path = content' t.path) :
    AgreeOff (· == s.name) ((outcomesIn c content sources).filterMap unroutable?)
      ((outcomesIn c content' sources).filterMap unroutable?) := by
  refine agreeOff_of_choice (outcomesIn_agreeOff hs hc) fun t r name ht hr hn => ?_
  rcases r with e | u
  · cases hn
  · obtain ⟨-, rfl⟩ : u.isEmpty = true ∧ u.name = name := by simpa [unroutable?] using hn
    rw [hr.elim name_of_outcomeIn name_of_outcomeIn, SourceFile.beq_name_of_leads hs ht]

theorem failures_agreeOff (hs : s.Leads sources) (hn : (sources.map (·.path)).Nodup)
    (hc : ∀ t ∈ sources, t ≠ s → content t.path = content' t.path) :
    AgreeOff (·.path == s.path)
      ((SourceFile.duplicates [] sources).map duplicateFailure ++ (outcomesIn c content sources).filterMap failure?)
      ((SourceFile.duplicates [] sources).map duplicateFailure ++
        (outcomesIn c content' sources).filterMap failure?) := by
  have hd := SourceFile.leads_iff_mem_distinct.1 hs
  have hmem := (SourceFile.distinct_sublist [] sources).subset
  refine AgreeOff.append_left (agreeOff_of_choice (outcomesIn_agreeOff hs hc) fun t r f ht _ hf => ?_) fun f hf => ?_
  · rcases r with e | u
    · cases hf
      exact SourceFile.beq_path hn (hmem hd) (hmem ht)
    · cases hf
  · -- the source counts, so it is none of the later ones of a name
    obtain ⟨d, hdup, rfl⟩ := List.mem_map.1 hf
    have hall : ((SourceFile.distinct [] sources ++ (SourceFile.duplicates [] sources).map (·.1)).map (·.path)).Nodup :=
      (((SourceFile.distinct_append_duplicates_perm [] sources).map (·.path)).nodup_iff).2 hn
    rw [List.map_append] at hall
    rw [beq_eq_false_iff_ne]
    intro hpath
    refine List.nodup_append.1 hall |>.2.2 _ (List.mem_map_of_mem hd) _ ?_ hpath.symm
    exact List.mem_map_of_mem (List.mem_map_of_mem hdup)

/-- The files of a generation whose outputs are cut around those of a source. -/
theorem cuts_of_outputs {g : Generation} (hg : g = .ofSources c serviceName content sources)
    {before after : List EndpointOutput} (h : g.outputs = before ++ g.outputsOf s ++ after) :
    InterfacesCut c s (Artifacts.sharedTypes ++ Artifacts.sections before) (Artifacts.sections after) g ∧
    ClientCut c s
      (Artifacts.clientHead serviceName c.interfacesModule ++ String.join (before.map Artifacts.fieldLine))
      (String.join (after.map Artifacts.fieldLine)) (Artifacts.registrationLines before)
      (Artifacts.registrationLines after ++ Artifacts.clientTail) g := by
  have hends : ∀ o ∈ g.outputs, o.declaration = "" ∨ Artifacts.Ended o.declaration := by
    intro o ho
    obtain ⟨e, -, he⟩ := ofEndpoint_of_mem_outputs (hg ▸ ho)
    rw [he]
    exact Artifacts.declaration_ofEndpoint ..
  have hadds : ∀ o ∈ g.outputs, o.isEmpty = false := by
    intro o ho
    obtain ⟨e, -, he⟩ := ofEndpoint_of_mem_outputs (hg ▸ ho)
    rw [he]
    exact EndpointOutput.isEmpty_ofEndpoint e
  have hname : g.report.serviceName = serviceName := by rw [hg]; rfl
  constructor
  · unfold InterfacesCut Generation.artifacts Artifacts.assemble
    rw [Artifacts.interfacesText_eq hends]
    conv_lhs => rw [h]
    simp only [Artifacts.sections_append, String.append_assoc]
  · have hfields : String.join (g.outputs.map Artifacts.fieldLine) = String.join (before.map Artifacts.fieldLine) ++
        String.join ((g.outputsOf s).map Artifacts.fieldLine) ++ String.join (after.map Artifacts.fieldLine) := by
      rw [h, List.map_append, List.map_append, String.join_append, String.join_append]
    have hregistrations : Artifacts.registrationLines g.outputs = Artifacts.registrationLines before ++
        Artifacts.registrationLines (g.outputsOf s) ++ Artifacts.registrationLines after := by
      rw [h, Artifacts.registrationLines_append, Artifacts.registrationLines_append]
    unfold ClientCut Generation.artifacts Artifacts.assemble
    simp only [Artifacts.clientText_eq hadds, hname, hfields, hregistrations, String.append_assoc]

theorem fieldsEnd_congr {xs ys : List EndpointOutput} {own : EndpointOutput → Bool} (h : AgreeOff own xs ys)
    (hne : xs.filter (!own ·) ≠ []) : Artifacts.fieldsEnd xs = Artifacts.fieldsEnd ys := by
  have hx : xs ≠ [] := fun hx => hne (by rw [hx]; rfl)
  have hy : ys ≠ [] := fun hy => hne (by rw [h.others, hy]; rfl)
  unfold Artifacts.fieldsEnd
  rw [List.isEmpty_eq_false_iff.2 hx, List.isEmpty_eq_false_iff.2 hy]

/-- Contents that differ in a source that leads give generations that differ in its part. -/
theorem isolated_ofSources (hs : s.Leads sources) (hn : (sources.map (·.path)).Nodup)
    (hc : ∀ t ∈ sources, t ≠ s → content t.path = content' t.path) :
    Isolated c s (.ofSources c serviceName content sources) (.ofSources c serviceName content' sources) := by
  have ho := outputs_agreeOff (c := c) hs hc
  obtain ⟨before, after, hx, hy⟩ := ho.split
  obtain ⟨hi, hcl⟩ := cuts_of_outputs (s := s) (rfl : _ = Generation.ofSources c serviceName content sources) hx
  obtain ⟨hi', hcl'⟩ := cuts_of_outputs (s := s) (rfl : _ = Generation.ofSources c serviceName content' sources) hy
  exact {
    serviceName := rfl
    outputs := ho
    endpoints := ho.map fun _ _ => rfl
    untyped := (ho.filter _).map fun _ _ => rfl
    unroutable := unroutable_agreeOff hs hc
    failures := failures_agreeOff hs hn hc
    interfaces := ⟨_, _, hi, hi'⟩
    client := ⟨_, _, _, _, hcl, hcl'⟩
    fieldsEnd := fieldsEnd_congr ho }

end

/-! ## Runs over folders that differ in one file -/

/-- Whether two folders have the same entries, in any order, and the same files but for one. -/
structure DifferIn (folder file : String) (entries entries' : List Entry)
    (content content' : String → Except FileError ByteArray) : Prop where
  names : entries.Perm entries'
  others : ∀ e ∈ entries, e.name ≠ file →
    content (Path.join folder e.name) = content' (Path.join folder e.name)

theorem sourceNames_congr {c : Config} {entries entries' : List Entry} (h : entries.Perm entries')
    (hn : (entries.map (·.name)).Nodup) : SourceFile.sourceNames c entries = SourceFile.sourceNames c entries' := by
  have hlt := SourceFile.sourceNames_pairwise (c := c) hn
  have hlt' := SourceFile.sourceNames_pairwise (c := c) (((h.map Entry.name).nodup_iff).1 hn)
  have hperm : (SourceFile.sourceNames c entries).Perm (SourceFile.sourceNames c entries') := by
    refine List.Perm.map _ (List.Perm.filter _ ?_)
    exact (List.mergeSort_perm _ _).trans (h.trans (List.mergeSort_perm _ _).symm)
  exact hperm.eq_of_pairwise (fun a b _ _ hab hba => absurd hba (String.lt_asymm hab)) hlt hlt'

/-- Two runs over a folder, in two systems at rest that differ in one file of it, both succeed over the same
sources. They agree in all that does not come from this file; and when the file is not the first source of its
name, they are the same. -/
theorem run_isolates {σ τ : Type} [FileStore (StateM σ)] [FileStore (StateM τ)] {state : σ} {state' : τ}
    {c : Config} {serviceName folder file : String} {entries entries' : List Entry}
    {content content' : String → Except FileError ByteArray} (hc : c.validate = .ok serviceName)
    (h : AtRest state folder entries content) (h' : AtRest state' folder entries' content')
    (hd : DifferIn folder file entries entries' content content') :
    ∃ (sources : List SourceFile) (g g' : Generation),
      (listSources c folder : StateM σ _) state = (.ok sources, state) ∧
      (listSources c folder : StateM τ _) state' = (.ok sources, state') ∧
      (run c folder : StateM σ _) state = (.ok g, state) ∧
      (run c folder : StateM τ _) state' = (.ok g', state') ∧
      ((SourceFile.ofName folder file).Leads sources → Isolated c (.ofName folder file) g g') ∧
      (¬(SourceFile.ofName folder file).Leads sources → g = g') := by
  have hsources : SourceFile.ofEntries c folder entries = SourceFile.ofEntries c folder entries' := by
    rw [SourceFile.ofEntries_eq, SourceFile.ofEntries_eq, sourceNames_congr hd.names h.distinct]
  have hmem : ∀ n ∈ SourceFile.sourceNames c entries, ⟨n, true⟩ ∈ entries := fun n hn =>
    (SourceFile.mem_sourceNames.1 hn).1
  have hothers : ∀ t ∈ SourceFile.ofEntries c folder entries, t ≠ .ofName folder file →
      content t.path = content' t.path := by
    intro t ht hne
    rw [SourceFile.ofEntries_eq] at ht
    obtain ⟨n, hn, rfl⟩ := List.mem_map.1 ht
    exact hd.others ⟨n, true⟩ (hmem n hn) fun hnf => hne (congrArg _ hnf)
  refine ⟨SourceFile.ofEntries c folder entries, _, _, listSources_eq h, ?_, run_eq hc h, run_eq hc h', ?_, ?_⟩
  · rw [listSources_eq h', hsources]
  · intro hs
    rw [← hsources]
    exact isolated_ofSources hs (h.nodup_paths c) hothers
  · intro hs
    rw [← hsources]
    exact ofSources_congr hs hothers

/-- A folder with a file of any bytes, and one that is no component. -/
def besideBroken (bytes : ByteArray) : FileTree :=
  .folder [("src", .folder [("a.cfc", .file bytes), ("b.cfc", .file "</cffunction>".toUTF8)])]

theorem atRest_besideBroken (bytes : ByteArray) :
    AtRest (besideBroken bytes) "src" [⟨"a.cfc", true⟩, ⟨"b.cfc", true⟩] (besideBroken bytes).read :=
  FileTree.atRest (by cbv) (by decide) (by decide)

theorem read_besideBroken (bytes bytes' : ByteArray) :
    (besideBroken bytes).read (Path.join "src" "b.cfc") = (besideBroken bytes').read (Path.join "src" "b.cfc") := by
  cbv

/-- The first file is a component in one folder, and empty in the other. -/
theorem run_isolates_besideBroken :
    let component := besideBroken "<cfcomponent taffy_uri=\"/a\"></cfcomponent>".toUTF8
    let blank := besideBroken "".toUTF8
    let entries : List Entry := [⟨"a.cfc", true⟩, ⟨"b.cfc", true⟩]
    let c : Config := { serviceName := some "Api" }
    c.validate = .ok "Api" ∧ AtRest component "src" entries component.read ∧ AtRest blank "src" entries blank.read ∧
    DifferIn "src" "a.cfc" entries entries component.read blank.read ∧
    ∃ g g', (run c "src" : TreeM _) component = (.ok g, component) ∧
      (run c "src" : TreeM _) blank = (.ok g', blank) ∧ Isolated c (.ofName "src" "a.cfc") g g' := by
  intro component blank entries c
  have hc : c.validate = .ok "Api" := by decide +kernel
  have h : AtRest component "src" entries component.read := atRest_besideBroken _
  have h' : AtRest blank "src" entries blank.read := atRest_besideBroken _
  have hd : DifferIn "src" "a.cfc" entries entries component.read blank.read := by
    refine ⟨List.Perm.refl _, ?_⟩
    simp only [entries, List.forall_mem_cons, List.not_mem_nil, false_imp_iff, implies_true, and_true]
    exact ⟨fun h => absurd rfl h, fun _ => read_besideBroken ..⟩
  obtain ⟨sources, g, g', hl, -, hg, hg', hisolated, -⟩ := run_isolates hc h h' hd
  refine ⟨hc, h, h', hd, g, g', hg, hg', hisolated ?_⟩
  cases hl.symm.trans (listSources_eq h)
  -- the listing is the entries as they stand
  rw [SourceFile.ofEntries_eq, SourceFile.sourceNames, List.mergeSort_of_pairwise (by decide +kernel)]
  show List.find? _ _ = _
  decide +kernel

end ResourceClient
