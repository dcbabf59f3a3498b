/-
Writing both files again. A writing without failures leaves at each of the four entries that it touches what depends on
the texts alone, and nothing is in the way of the next one. So the same texts written once more leave a tidy tree exactly
as it is, also when one file is named as the temporary file of the other.
-/
import ResourceClient.Proofs.Artifact.Written
import ResourceClient.Proofs.Files.Steps

namespace ResourceClient

open FileTree

/-- The names of the entries that the writing of both files touches. -/
def Config.writtenNames (c : Config) : List String :=
  [c.interfacesFile, c.interfacesFile ++ ".tmp", c.clientFile, c.clientFile ++ ".tmp"]

variable {c : Config} {t t' : FileTree} {target n serviceName : String} {a : Artifacts} {r r' : Report}

theorem Config.forall_writtenNames {p : String → Prop} : (∀ n ∈ c.writtenNames, p n) ↔
    p c.interfacesFile ∧ p (c.interfacesFile ++ ".tmp") ∧ p c.clientFile ∧ p (c.clientFile ++ ".tmp") := by
  simp [Config.writtenNames]

/-! ## What a writing needs -/

/-- Replacing a file puts no folder anywhere. -/
theorem Replaced.not_isFolderAt_of_not {bytes : ByteArray} (h : Replaced target n bytes t (.ok ()) t') {m : String}
    (hm : ¬t.IsFolderAt (location target ++ [m])) : ¬t'.IsFolderAt (location target ++ [m]) := by
  by_cases hmem : m ∈ [n, n ++ ".tmp"]
  · exact (h.not_isFolderAt hmem).2
  · rw [List.mem_pair, not_or] at hmem
    rintro ⟨entries, hat⟩
    rw [h.aside _ (apart_entries (Ne.symm hmem.1) _) (apart_entries (Ne.symm hmem.2) _)] at hat
    exact hm ⟨entries, hat⟩

/-- Both files are written into an open folder when no folder is in the way. -/
theorem writeArtifacts_of_free (hc : c.validate = .ok serviceName) (ht : t.Plain) (ho : t.Open [] (Path.names target))
    (hfree : ∀ n ∈ c.writtenNames, ¬t.IsFolderAt (location target ++ [n])) (a : Artifacts) (r : Report) :
    ∃ t₁ t₂, (writeArtifacts c target a r : TreeM _) t =
        ((r.note (Path.join target c.interfacesFile) (.ok ())).note (Path.join target c.clientFile) (.ok ()), t₂) ∧
      Replaced target c.interfacesFile a.interfaces.toUTF8 t (.ok ()) t₁ ∧
      Replaced target c.clientFile a.client.toUTF8 t₁ (.ok ()) t₂ := by
  obtain ⟨r₁, t₁, r₂, t₂, hrun, -, h₁, h₂⟩ := writeArtifacts_of_makeFolders hc ht (makeFolders_of_open ht ho) a r
  obtain ⟨hi, hi', hk, hk'⟩ := Config.forall_writtenNames.1 hfree
  cases r₁ with
  | error e =>
    rcases h₁.blocked e rfl with hb | hb
    · exact absurd hb hi
    · exact absurd hb hi'
  | ok _ =>
    cases r₂ with
    | error e =>
      rcases h₂.blocked e rfl with hb | hb
      · exact absurd hb (h₁.not_isFolderAt_of_not hk)
      · exact absurd hb (h₁.not_isFolderAt_of_not hk')
    | ok _ => exact ⟨t₁, t₂, hrun, h₁, h₂⟩

/-! ## What a writing leaves -/

/-- A writing without failures has made the folder and replaced both files. -/
theorem exists_replaced_of_writeArtifacts (hc : c.validate = .ok serviceName) (ht : t.Plain)
    (h : (writeArtifacts c target a r : TreeM _) t = (r', t')) (hw : r'.writeFailures = []) :
    ∃ t₀ t₁, (makeFolders target : TreeM _) t = (.ok (), t₀) ∧ t₀.Open [] (Path.names target) ∧
      Replaced target c.interfacesFile a.interfaces.toUTF8 t₀ (.ok ()) t₁ ∧
      Replaced target c.clientFile a.client.toUTF8 t₁ (.ok ()) t' ∧
      r' = (r.note (Path.join target c.interfacesFile) (.ok ())).note (Path.join target c.clientFile) (.ok ()) := by
  obtain ⟨made, t₀, hm, -, -⟩ := makeFolders_grown ht target
  cases made with
  | error cause =>
    unfold writeArtifacts at h
    rw [bind_run, hm] at h
    cases h
    simp at hw
  | ok _ =>
    obtain ⟨r₁, t₁, r₂, t₂, hrun, ho, h₁, h₂⟩ := writeArtifacts_of_makeFolders hc ht hm a r
    cases hrun.symm.trans h
    cases r₁ with
    | error e => cases r₂ <;> simp [Report.note] at hw
    | ok _ =>
      cases r₂ with
      | error e => simp [Report.note] at hw
      | ok _ => exact ⟨t₀, t₁, hm, ho, h₁, h₂, rfl⟩

/-- What a writing leaves at an entry that it touches. -/
def leftAt (c : Config) (a : Artifacts) (n : String) : Option FileTree :=
  if n = c.clientFile then some (.file a.client.toUTF8)
  else if n = c.clientFile ++ ".tmp" then none
  else if n = c.interfacesFile then some (.file a.interfaces.toUTF8)
  else none

theorem at?_of_replaced {t₀ t₁ t₂ : FileTree} (h₁ : Replaced target c.interfacesFile a.interfaces.toUTF8 t₀ (.ok ()) t₁)
    (h₂ : Replaced target c.clientFile a.client.toUTF8 t₁ (.ok ()) t₂) (hn : n ∈ c.writtenNames) :
    t₂.at? (location target ++ [n]) = leftAt c a n := by
  unfold leftAt
  split
  · rename_i hclient
    rw [hclient, h₂.written rfl]
  · rename_i hclient
    split
    · rename_i htemporary
      rw [htemporary, h₂.temporary rfl]
    · rename_i htemporary
      -- the client and its temporary file are elsewhere, so this is what the interfaces have left
      rw [h₂.aside _ (apart_entries (Ne.symm hclient) _) (apart_entries (Ne.symm htemporary) _)]
      split
      · rename_i hinterfaces
        rw [hinterfaces, h₁.written rfl]
      · rename_i hinterfaces
        have hname : n = c.interfacesFile ++ ".tmp" := by
          simpa [Config.writtenNames, hclient, htemporary, hinterfaces] using hn
        rw [hname, h₁.temporary rfl]

theorem not_isFolderAt_of_leftAt {place : List String} (h : t.at? place = leftAt c a n) : ¬t.IsFolderAt place := by
  unfold leftAt at h
  split_ifs at h
  · exact not_isFolderAt_of_file h
  · exact not_isFolderAt_of_none h
  · exact not_isFolderAt_of_file h
  · exact not_isFolderAt_of_none h

/-- The places of the entries that the writing of both files into a folder touches. -/
def Config.writtenPlaces (c : Config) (target : String) : List (List String) :=
  c.writtenNames.map (location target ++ [·])

theorem Config.mem_writtenPlaces (hc : c.validate = .ok serviceName) {place : List String} :
    place ∈ c.writtenPlaces target ↔ ∃ n ∈ c.writtenNames, place = location (Path.join target n) := by
  obtain ⟨hi, hk, -⟩ := Config.names_of_validate hc
  have hname : ∀ n ∈ c.writtenNames, Path.IsName n :=
    Config.forall_writtenNames.2 ⟨hi, hi.temporary, hk, hk.temporary⟩
  unfold Config.writtenPlaces
  rw [List.mem_map]
  refine exists_congr fun n => and_congr_right fun hn => ?_
  rw [location_join (hname n hn), eq_comm]

/-- A writing without failures spares all other files. -/
theorem writeArtifacts_spares (hc : c.validate = .ok serviceName) (ht : t.Plain)
    (h : (writeArtifacts c target a r : TreeM _) t = (r', t')) (hw : r'.writeFailures = []) :
    Spares (c.writtenPlaces target) t t' := by
  obtain ⟨t₀, t₁, hm, ho, h₁, h₂, -⟩ := exists_replaced_of_writeArtifacts hc ht h hw
  have hmade : Spares [] t t₀ := by
    have := makeFolders_spares ht target
    rwa [hm] at this
  have hroot : t₀.IsFolderAt [] := by
    obtain ⟨made, t₀', hm', hgrown, -⟩ := makeFolders_grown ht target
    cases hm.symm.trans hm'
    exact hgrown.plain.root
  have hfolder := ho.isFolderAt_location hroot
  have hsub : ∀ {n}, n ∈ c.writtenNames → n ++ ".tmp" ∈ c.writtenNames →
      [location target ++ [n], location target ++ [n ++ ".tmp"]] ⊆ c.writtenPlaces target := by
    intro n hn hn' place hplace
    rcases List.mem_pair.1 hplace with rfl | rfl
    · exact List.mem_map_of_mem hn
    · exact List.mem_map_of_mem hn'
  have hfirst := (h₁.spares hfolder).mono (hsub (by simp [Config.writtenNames]) (by simp [Config.writtenNames]))
  have hsecond := (h₂.spares (h₁.folders _ hfolder)).mono
    (hsub (by simp [Config.writtenNames]) (by simp [Config.writtenNames]))
  exact ((hmade.mono (List.nil_subset _)).trans hfirst).trans hsecond

/-! ## Writing again -/

/-- Writing the same texts again leaves the tree as it is. -/
theorem writeArtifacts_again (hc : c.validate = .ok serviceName) (ht : t.Plain) (htidy : t.Tidy)
    (h : (writeArtifacts c target a r : TreeM _) t = (r', t')) (hw : r'.writeFailures = []) :
    (writeArtifacts c target a r : TreeM _) t' = (r', t') := by
  obtain ⟨t₀, t₁, -, ho, h₁, h₂, rfl⟩ := exists_replaced_of_writeArtifacts hc ht h hw
  have hleft : ∀ n ∈ c.writtenNames, t'.at? (location target ++ [n]) = leftAt c a n := fun n hn =>
    at?_of_replaced h₁ h₂ hn
  have hfree : ∀ n ∈ c.writtenNames, ¬t'.IsFolderAt (location target ++ [n]) := fun n hn =>
    not_isFolderAt_of_leftAt (hleft n hn)
  have ho' : t'.Open [] (Path.names target) := (ho.mono h₁.folders).mono h₂.folders
  obtain ⟨u₁, u₂, hrun, k₁, k₂⟩ := writeArtifacts_of_free hc h₂.plain ho' hfree a r
  have htidy' : t'.Tidy := tidy_of_writeArtifacts htidy h
  have htidy₂ : u₂.Tidy := tidy_of_writeArtifacts htidy' hrun
  have hfolder : t'.IsFolderAt (location target) := ho'.isFolderAt_location h₂.plain.root
  have hfolder₂ : u₂.IsFolderAt (location target) := k₂.folders _ (k₁.folders _ hfolder)
  have haside : ∀ place, (∀ n ∈ c.writtenNames, Apart (location target ++ [n]) place) → u₂.at? place = t'.at? place := by
    intro place hapart
    obtain ⟨hi, hi', hk, hk'⟩ := Config.forall_writtenNames.1 hapart
    rw [k₂.aside place hk hk', k₁.aside place hi hi']
  have hsame : u₂ = t' := by
    refine htidy₂.eq_of_top htidy' fun place => ?_
    by_cases hplace : ∀ n ∈ c.writtenNames, place ≠ location target ++ [n]
    · exact top_eq_of_aside c.writtenNames hfolder hfolder₂ (fun n hn => isBareAt_of_not_isFolderAt (hfree n hn))
        (fun n hn => isBareAt_of_not_isFolderAt (not_isFolderAt_of_leftAt (at?_of_replaced k₁ k₂ hn))) haside hplace
    · simp only [not_forall, ne_eq, not_not] at hplace
      obtain ⟨n, hn, rfl⟩ := hplace
      rw [at?_of_replaced k₁ k₂ hn, hleft n hn]
  rw [hrun, hsame]

end ResourceClient
