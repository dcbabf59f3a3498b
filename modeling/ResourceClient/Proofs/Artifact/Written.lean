/-
What a report says of the generated files is what became of them, in a tree without links: a file that is
written holds its text, and one that is not is as it was. Each file is written under a temporary name beside
it, so this needs that neither file is named as the temporary file of the other; and making the folder for
them must not make a folder in their place.
-/
import ResourceClient.Proofs.Artifact.Replace

namespace ResourceClient

open FileTree

/-! ## The names of the files -/

theorem Config.isName_of_isBareFileName {name : String} (h : isBareFileName name = true) : Path.IsName name := by
  unfold isBareFileName at h
  simp only [Bool.and_eq_true, Bool.not_eq_true', bne_iff_ne, ne_eq, List.contains_eq_mem, decide_eq_false_iff_not] at h
  obtain ⟨⟨⟨⟨hblank, hslash⟩, -⟩, hdot⟩, hup⟩ := h
  refine ⟨hslash, ?_, hup⟩
  have hne : name.toList ≠ [] := by
    intro he
    have : name = "" := String.toList_injective he
    subst this
    exact absurd hblank (by decide)
  have hdot' : name.toList ≠ ['.'] := fun he => hdot (String.toList_injective he)
  unfold Path.isIdle
  rw [Bool.or_eq_false_iff, beq_eq_false_iff_ne, beq_eq_false_iff_ne]
  exact ⟨hne, hdot'⟩

/-- The names of the files of a valid configuration. -/
theorem Config.names_of_validate {c : Config} {serviceName : String} (h : c.validate = .ok serviceName) :
    Path.IsName c.interfacesFile ∧ Path.IsName c.clientFile ∧ c.interfacesFile ≠ c.clientFile := by
  unfold validate at h
  split at h
  · cases h
  · split at h
    · cases h
    · split at h
      · cases h
      · split at h
        · cases h
        · split at h
          · cases h
          · rename_i hi hc hne
            rw [Bool.not_eq_true, Bool.not_eq_false'] at hi hc
            exact ⟨isName_of_isBareFileName hi, isName_of_isBareFileName hc, hne⟩

/-! ## Records -/

/-- Notes in a report how the writing of a file went, with the folder for it. -/
def Report.record (r : Report) (path : String) : Except WriteFault Unit → Report
  | .ok () => { r with written := r.written ++ [path] }
  | .error fault => { r with writeFailures := r.writeFailures ++ [⟨path, fault⟩] }

theorem Report.note_eq (r : Report) (path : String) (outcome : Except WriteError Unit) :
    r.note path outcome = r.record path (outcome.mapError .file) := by
  cases outcome <;> rfl

/-- Whether a path leads to a regular file with a text. -/
def Holds (t : FileTree) (path text : String) : Prop :=
  t.read path = .ok text.toUTF8 ∧ t.at? (location path) = some (.file text.toUTF8)

/-- Whether what stands at the place of a path is the same as before. -/
def Untouched (t t' : FileTree) (path : String) : Prop :=
  t'.at? (location path) = t.at? (location path)

/-- Whether the way to a folder leads past an entry of it, and not to the entry or through it. -/
def PassesBy (folder name : String) : Prop :=
  ∀ path ∈ Path.ancestors folder, ¬location (Path.join folder name) <+: location path

/-- What is recorded of the two files is what became of them, unless one is named as the temporary file of the
other or stands where the folder for them is made. -/
structure Truthful (c : Config) (folder : String) (a : Artifacts) (t : FileTree)
    (interfaces client : Except WriteFault Unit) (t' : FileTree) : Prop where
  interfaces_written : interfaces = .ok () → c.interfacesFile ≠ c.clientFile ++ ".tmp" →
    Holds t' (Path.join folder c.interfacesFile) a.interfaces
  interfaces_kept : ∀ fault, interfaces = .error fault → c.interfacesFile ≠ c.clientFile ++ ".tmp" →
    PassesBy folder c.interfacesFile → Untouched t t' (Path.join folder c.interfacesFile)
  client_written : client = .ok () → Holds t' (Path.join folder c.clientFile) a.client
  client_kept : ∀ fault, client = .error fault → c.clientFile ≠ c.interfacesFile ++ ".tmp" →
    PassesBy folder c.clientFile → Untouched t t' (Path.join folder c.clientFile)

instance (folder name : String) : Decidable (PassesBy folder name) :=
  inferInstanceAs (Decidable (∀ path ∈ Path.ancestors folder, _))

/-- The way to a folder passes by its entries when it never goes up. -/
theorem passesBy_of_no_up {folder n : String} (hn : Path.IsName n) (h : ".." ∉ Path.names folder) :
    PassesBy folder n := by
  intro path hpath hprefix
  have hnames := Path.names_le_of_mem_ancestors hpath
  rw [location_join hn, location_of_no_up h, location_of_no_up fun hu => h (hnames.subset hu)] at hprefix
  have hlong := hprefix.length_le
  have hshort := hnames.length_le
  rw [List.length_append, List.length_singleton] at hlong
  omega

/-! ## Writing both files -/

variable {c : Config} {t t' : FileTree} {folder n serviceName : String}

/-- A file at an entry of an open folder holds its text. -/
theorem holds_join (ht : t.Plain) (hn : Path.IsName n) (ho : t.Open [] (Path.names folder)) {text : String}
    (h : t.at? (location folder ++ [n]) = some (.file text.toUTF8)) : Holds t (Path.join folder n) text := by
  refine ⟨read_join ht hn ho h, ?_⟩
  rw [location_join hn]
  exact h

theorem FileTree.Grown.untouched (h : Grown ((Path.ancestors folder).map location) t t') (hp : PassesBy folder n) :
    Untouched t t' (Path.join folder n) := by
  refine h.same _ fun m hm => ?_
  obtain ⟨path, hpath, rfl⟩ := List.mem_map.1 hm
  exact hp path hpath

/-- What is left by the try to write both files after their folder has been made. -/
theorem writeArtifacts_of_makeFolders {t₀ : FileTree} (hc : c.validate = .ok serviceName) (ht : t.Plain)
    (hm : (makeFolders folder : TreeM _) t = (.ok (), t₀)) (a : Artifacts) (r : Report) :
    ∃ r₁ t₁ r₂ t₂, (writeArtifacts c folder a r : TreeM _) t =
        ((r.note (Path.join folder c.interfacesFile) r₁).note (Path.join folder c.clientFile) r₂, t₂) ∧
      t₀.Open [] (Path.names folder) ∧
      Replaced folder c.interfacesFile a.interfaces.toUTF8 t₀ r₁ t₁ ∧
      Replaced folder c.clientFile a.client.toUTF8 t₁ r₂ t₂ := by
  obtain ⟨hi, hk, -⟩ := Config.names_of_validate hc
  obtain ⟨r₀, t₀', h₀, hgrown, ho⟩ := makeFolders_grown ht folder
  cases hm.symm.trans h₀
  have ho₀ := ho rfl
  obtain ⟨r₁, t₁, h₁, hr₁⟩ := writeAtomic_replaced hgrown.plain hi ho₀ a.interfaces
  obtain ⟨r₂, t₂, h₂, hr₂⟩ := writeAtomic_replaced hr₁.plain hk (ho₀.mono hr₁.folders) a.client
  refine ⟨r₁, t₁, r₂, t₂, ?_, ho₀, hr₁, hr₂⟩
  unfold writeArtifacts
  rw [bind_run, hm]
  simp only
  rw [bind_run, h₁, bind_run, h₂]
  rfl

/-- Writing both files records each of them once, the interfaces first, and truthfully. -/
theorem writeArtifacts_truthful (hc : c.validate = .ok serviceName) (ht : t.Plain) (folder : String) (a : Artifacts)
    (r : Report) :
    ∃ interfaces client t', (writeArtifacts c folder a r : TreeM _) t =
        ((r.record (Path.join folder c.interfacesFile) interfaces).record (Path.join folder c.clientFile) client, t') ∧
      t'.Plain ∧ Truthful c folder a t interfaces client t' := by
  obtain ⟨hi, hk, hne⟩ := Config.names_of_validate hc
  obtain ⟨r₀, t₀, h₀, hgrown, -⟩ := makeFolders_grown ht folder
  cases r₀ with
  | error cause =>
    refine ⟨.error (.folder cause), .error (.folder cause), t₀, ?_, hgrown.plain, ?_⟩
    · unfold writeArtifacts
      rw [bind_run, h₀]
      show (_, _) = (_, _)
      simp only [Report.record, List.append_assoc, List.cons_append, List.nil_append]
    · exact ⟨nofun, fun _ _ _ hp => hgrown.untouched hp, nofun, fun _ _ _ hp => hgrown.untouched hp⟩
  | ok _ =>
    obtain ⟨r₁, t₁, r₂, t₂, hrun, ho, h₁, h₂⟩ := writeArtifacts_of_makeFolders hc ht h₀ a r
    have hopen : t₂.Open [] (Path.names folder) := (ho.mono h₁.folders).mono h₂.folders
    have hapart : ∀ {m n : String}, m ≠ n → Apart (location folder ++ [m]) (location folder ++ [n]) :=
      fun h => apart_entries h _
    -- the client is written aside from the interfaces, and they from it
    have hinterfaces : c.interfacesFile ≠ c.clientFile ++ ".tmp" →
        t₂.at? (location folder ++ [c.interfacesFile]) = t₁.at? (location folder ++ [c.interfacesFile]) :=
      fun htmp => h₂.aside _ (hapart hne.symm) (hapart htmp.symm)
    have hclient : c.clientFile ≠ c.interfacesFile ++ ".tmp" →
        t₁.at? (location folder ++ [c.clientFile]) = t₀.at? (location folder ++ [c.clientFile]) :=
      fun htmp => h₁.aside _ (hapart hne) (hapart htmp.symm)
    refine ⟨r₁.mapError .file, r₂.mapError .file, t₂, ?_, h₂.plain, ?_, ?_, ?_, ?_⟩
    · rw [hrun, Report.note_eq, Report.note_eq]
    · intro hr htmp
      cases r₁ with
      | error _ => cases hr
      | ok _ => exact holds_join h₂.plain hi hopen ((hinterfaces htmp).trans (h₁.written rfl))
    · intro _ hr htmp hp
      have hstart := hgrown.untouched hp
      unfold Untouched at *
      rw [location_join hi] at *
      cases r₁ with
      | error e => rw [hinterfaces htmp, h₁.kept e rfl, hstart]
      | ok _ => cases hr
    · intro hr
      cases r₂ with
      | error _ => cases hr
      | ok _ => exact holds_join h₂.plain hk hopen (h₂.written rfl)
    · intro _ hr htmp hp
      have hstart := hgrown.untouched hp
      unfold Untouched at *
      rw [location_join hk] at *
      cases r₂ with
      | error e => rw [h₂.kept e rfl, hclient htmp, hstart]
      | ok _ => cases hr

/-- Both files written into a new folder. -/
theorem writeArtifacts_truthful_new :
    Config.validate { serviceName := some "Api" } = .ok "Api" ∧ FileTree.empty.Plain ∧
    ∃ interfaces client t', (writeArtifacts { serviceName := some "Api" } "out" ⟨"// interfaces", "// client"⟩ {} :
        TreeM _) FileTree.empty =
        ((Report.record {} (Path.join "out" "taffy-typescript-client-interfaces.ts") interfaces).record
          (Path.join "out" "taffy-typescript-client.ts") client, t') ∧
      PassesBy "out" "taffy-typescript-client-interfaces.ts" ∧ PassesBy "out" "taffy-typescript-client.ts" ∧
      Truthful { serviceName := some "Api" } "out" ⟨"// interfaces", "// client"⟩ FileTree.empty interfaces client t' := by
  have hc : Config.validate { serviceName := some "Api" } = .ok "Api" := by decide +kernel
  have ht : FileTree.empty.Plain := ⟨linkFree_empty, [], rfl⟩
  have hup : ".." ∉ Path.names "out" := by decide +kernel
  obtain ⟨hi, hk, -⟩ := Config.names_of_validate hc
  obtain ⟨interfaces, client, t', hrun, -, htrue⟩ := writeArtifacts_truthful hc ht "out" ⟨"// interfaces", "// client"⟩ {}
  exact ⟨hc, ht, interfaces, client, t', hrun, passesBy_of_no_up hi hup, passesBy_of_no_up hk hup, htrue⟩

/-! ## Interfaces named as the temporary file of the client -/

/-- When the interfaces file is named as the temporary file of the client, and no folder is in the way, both
files are recorded as written, and the interfaces file is gone. -/
theorem writeArtifacts_loses_interfaces {t₀ : FileTree} (hc : c.validate = .ok serviceName)
    (hname : c.interfacesFile = c.clientFile ++ ".tmp") (ht : t.Plain)
    (hm : (makeFolders folder : TreeM _) t = (.ok (), t₀))
    (hi : ¬t₀.IsFolderAt (location folder ++ [c.interfacesFile]))
    (hk : ¬t₀.IsFolderAt (location folder ++ [c.clientFile]))
    (htmp : ¬t₀.IsFolderAt (location folder ++ [c.interfacesFile ++ ".tmp"])) (a : Artifacts) (r : Report) :
    ∃ t', (writeArtifacts c folder a r : TreeM _) t = ((r.record (Path.join folder c.interfacesFile) (.ok ())).record
        (Path.join folder c.clientFile) (.ok ()), t') ∧
      t'.read (Path.join folder c.interfacesFile) = .error .missing := by
  obtain ⟨hni, hnk, hne⟩ := Config.names_of_validate hc
  obtain ⟨r₁, t₁, r₂, t₂, hrun, ho, h₁, h₂⟩ := writeArtifacts_of_makeFolders hc ht hm a r
  cases r₁ with
  | error e =>
    rcases h₁.blocked e rfl with h | h
    · exact absurd h hi
    · exact absurd h htmp
  | ok _ =>
    have hthere := h₁.written rfl
    cases r₂ with
    | error e =>
      -- the client's place is as before, and its temporary file lies where the interfaces do
      rcases h₂.blocked e rfl with ⟨entries, h⟩ | h
      · have hlong : c.interfacesFile ++ ".tmp" ≠ c.clientFile := by
          intro he
          have hlen := congrArg (fun s => s.toList.length) he
          rw [hname] at hlen
          simp [String.toList_append] at hlen
        rw [h₁.aside _ (apart_entries hne _) (apart_entries hlong _)] at h
        exact absurd ⟨entries, h⟩ hk
      · rw [← hname] at h
        exact absurd h (not_isFolderAt_of_file hthere)
    | ok _ =>
      refine ⟨t₂, hrun, ?_⟩
      have hgone := h₂.temporary rfl
      rw [← hname] at hgone
      unfold FileTree.read
      rw [place_join h₂.plain.linkFree h₂.plain.root hni ((ho.mono h₁.folders).mono h₂.folders) true]
      unfold entryPlace
      rw [hgone]

/-- A valid configuration for which both files are recorded as written, and one of them is not there. -/
theorem writeArtifacts_loses_api :
    Config.validate { serviceName := some "Api", interfacesFile := "api.ts.tmp", clientFile := "api.ts" } = .ok "Api" ∧
    ∃ t', (writeArtifacts { serviceName := some "Api", interfacesFile := "api.ts.tmp", clientFile := "api.ts" } "out"
        ⟨"// interfaces\n", "// client\n"⟩ {} : TreeM _) FileTree.empty =
        ({ written := ["out/api.ts.tmp", "out/api.ts"] }, t') ∧
      t'.read "out/api.ts.tmp" = .error .missing := by
  have hc : Config.validate { serviceName := some "Api", interfacesFile := "api.ts.tmp", clientFile := "api.ts" } =
      .ok "Api" := by decide +kernel
  have hmake : FileTree.makeFolder FileTree.empty "out" = (.ok (), .folder [("out", .folder [])]) := by
    have hsteps : FileTree.steps "out" = ["out"] := by decide +kernel
    unfold makeFolder
    rw [place, if_neg (by decide), hsteps, walk_last linkFree_empty ⟨by decide, by decide⟩]
    rfl
  have hm : (makeFolders "out" : TreeM _) FileTree.empty = (.ok (), .folder [("out", .folder [])]) := by
    show (makeChain (Path.ancestors "out") : TreeM _) _ = _
    rw [show Path.ancestors "out" = ["out", ""] by decide +kernel, makeChain_cons _ (by decide), hmake]
    rfl
  have hloc : location "out" = ["out"] := by decide +kernel
  have hnone : ∀ name, ¬(FileTree.folder [("out", .folder [])]).IsFolderAt (location "out" ++ [name]) := fun name =>
    not_isFolderAt_of_none (by rw [hloc]; rfl)
  exact ⟨hc, writeArtifacts_loses_interfaces hc (by decide +kernel) ⟨linkFree_empty, [], rfl⟩ hm (hnone _) (hnone _)
    (hnone _) _ _⟩

end ResourceClient
