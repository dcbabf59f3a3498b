/-
Relations between the trees before and after a computation. What every single operation keeps to, the making of folders
and the writing of files keep to as well, if it goes on from step to step. So tidy trees stay tidy; and where folders are
made in a tree without links, no file comes or goes.
-/
import ResourceClient.Proofs.Artifact.Replace
import ResourceClient.Proofs.Files.Tidy

namespace ResourceClient

open FileTree

/-- Whether a computation moves each tree to a related one. -/
def Moves (R : FileTree → FileTree → Prop) {α : Type} (x : TreeM α) : Prop :=
  ∀ t, R t (x t).2

/-! ## Relations that go on -/

section

variable {R : FileTree → FileTree → Prop} {α β : Type} {x : TreeM α} (hrefl : ∀ t, R t t)
  (htrans : ∀ t t' t'', R t t' → R t' t'' → R t t'')

include hrefl in
theorem moves_of_same (h : ∀ t, (x t).2 = t) : Moves R x := fun t => (h t).symm ▸ hrefl t

include htrans in
theorem Moves.bind {f : α → TreeM β} (hx : Moves R x) (hf : ∀ a, Moves R (f a)) : Moves R (x >>= f) :=
  fun t => htrans _ _ _ (hx t) (hf _ _)

include hrefl htrans

theorem moves_makeChain (paths : List String)
    (hmake : ∀ path ∈ paths, Moves R (FileStore.makeFolder path : TreeM _)) : Moves R (makeChain paths : TreeM _) := by
  have hpure : ∀ r : Except FileError Unit, Moves R (pure r : TreeM _) := fun r => moves_of_same hrefl fun _ => rfl
  have hunless : ∀ path r, Moves R (unlessThere path r : TreeM _) := fun path r =>
    moves_of_same hrefl fun t => by rw [unlessThere_eq]
  induction paths with
  | nil => exact hpure _
  | cons path parents ih =>
    obtain ⟨hself, hparents⟩ := List.forall_mem_cons.1 hmake
    unfold makeChain
    split
    · exact hpure _
    · refine Moves.bind htrans hself fun r => ?_
      split
      · refine Moves.bind htrans (ih hparents) fun r' => ?_
        cases r' with
        | error e => exact hpure _
        | ok _ => exact Moves.bind htrans hself fun _ => hunless _ _
      · exact hunless _ _

theorem moves_makeFolders (path : String)
    (hmake : ∀ folder ∈ Path.ancestors path, Moves R (FileStore.makeFolder folder : TreeM _)) :
    Moves R (makeFolders path : TreeM _) :=
  moves_makeChain hrefl htrans _ hmake

theorem moves_writeAtomic (hmake : ∀ path, Moves R (FileStore.makeFolder path : TreeM _))
    (hwrite : ∀ path bytes, Moves R (FileStore.write path bytes : TreeM _))
    (hrename : ∀ source target, Moves R (FileStore.rename source target : TreeM _))
    (hremove : ∀ path, Moves R (FileStore.remove path : TreeM _)) (path content : String) :
    Moves R (writeAtomic path content : TreeM _) := by
  have hpure : ∀ r : Except WriteError Unit, Moves R (pure r : TreeM _) := fun r =>
    moves_of_same hrefl fun _ => rfl
  have hparent : Moves R (makeParent path : TreeM _) := by
    unfold makeParent
    split
    · exact hpure _
    · exact hpure _
    · exact Moves.bind htrans (moves_makeFolders hrefl htrans _ fun folder _ => hmake folder) fun _ => hpure _
  unfold writeAtomic
  refine Moves.bind htrans hparent fun r => ?_
  cases r with
  | error e => exact hpure _
  | ok _ =>
    refine Moves.bind htrans (hwrite _ _) fun r => ?_
    cases r with
    | error cause => exact hpure _
    | ok _ =>
      refine Moves.bind htrans (hrename _ _) fun r => ?_
      cases r with
      | error cause => exact Moves.bind htrans (hremove _) fun _ => hpure _
      | ok _ => exact hpure _

end

/-! ## Tidy trees -/

variable {t t' t'' : FileTree} {folder place : List String}

/-- Writing both files keeps a tree tidy, whatever becomes of them. -/
theorem tidy_writeArtifacts (h : t.Tidy) (c : Config) (target : String) (a : Artifacts) (r : Report) :
    ((writeArtifacts c target a r : TreeM _) t).2.Tidy := by
  let R : FileTree → FileTree → Prop := fun t t' => t.Tidy → t'.Tidy
  have hrefl : ∀ t, R t t := fun _ h => h
  have htrans : ∀ t t' t'', R t t' → R t' t'' → R t t'' := fun _ _ _ h h' ht => h' (h ht)
  have hmake : ∀ path, Moves R (FileStore.makeFolder path : TreeM _) := fun path t ht => ht.makeFolder path
  have hwrite : ∀ path content, Moves R (writeAtomic path content : TreeM _) :=
    moves_writeAtomic hrefl htrans hmake (fun path bytes t ht => ht.write path bytes)
      (fun source target t ht => ht.rename source target) (fun path t ht => ht.remove path)
  have hall : Moves R (writeArtifacts c target a r : TreeM _) := by
    unfold writeArtifacts
    refine Moves.bind htrans (moves_makeFolders hrefl htrans target fun folder _ => hmake folder) fun made => ?_
    cases made with
    | error cause => exact moves_of_same hrefl fun _ => rfl
    | ok _ =>
      refine Moves.bind htrans (hwrite _ _) fun _ => Moves.bind htrans (hwrite _ _) fun _ => ?_
      exact moves_of_same hrefl fun _ => rfl
  exact hall t h

theorem tidy_of_writeArtifacts {c : Config} {target : String} {a : Artifacts} {r r' : Report} (htidy : t.Tidy)
    (h : (writeArtifacts c target a r : TreeM _) t = (r', t')) : t'.Tidy := by
  have hafter := tidy_writeArtifacts htidy c target a r
  rwa [h] at hafter

/-! ## Trees that differ at entries of a folder -/

namespace FileTree

theorem IsFolderAt.of_prefix (h : t.IsFolderAt place) {above : List String} (ha : above <+: place) :
    t.IsFolderAt above := by
  obtain ⟨rest, rfl⟩ := ha
  cases rest with
  | nil => rwa [List.append_nil] at h
  | cons name names =>
    obtain ⟨entries, h⟩ := h
    exact isFolderAt_of_at?_append h

/-- Whether nothing lies in what stands at a place. -/
def IsBareAt (t : FileTree) (place : List String) : Prop :=
  ∀ name names, t.at? (place ++ name :: names) = none

theorem isBareAt_of_not_isFolderAt (h : ¬t.IsFolderAt place) : t.IsBareAt place := by
  intro name names
  cases hat : t.at? (place ++ name :: names) with
  | none => rfl
  | some u => exact absurd (isFolderAt_of_at?_append hat) h

theorem isBareAt_of_empty (h : t.at? place = some empty) : t.IsBareAt place := by
  intro name names
  rw [at?_append, h]
  rfl

/-- Trees that agree aside from some bare entries of a folder have the same at every place but these. -/
theorem top_eq_of_aside (names : List String) (hf : t.IsFolderAt folder) (hf' : t'.IsFolderAt folder)
    (hb : ∀ n ∈ names, t.IsBareAt (folder ++ [n])) (hb' : ∀ n ∈ names, t'.IsBareAt (folder ++ [n]))
    (haside : ∀ place, (∀ n ∈ names, Apart (folder ++ [n]) place) → t'.at? place = t.at? place)
    (hp : ∀ n ∈ names, place ≠ folder ++ [n]) : (t'.at? place).map top = (t.at? place).map top := by
  by_cases hapart : ∀ n ∈ names, Apart (folder ++ [n]) place
  · rw [haside place hapart]
  · simp only [not_forall, Apart, not_and_or, not_not] at hapart
    obtain ⟨n, hn, hbelow | habove⟩ := hapart
    · obtain ⟨rest, rfl⟩ := hbelow
      cases rest with
      | nil => exact absurd (List.append_nil _) (hp n hn)
      | cons name names => rw [hb n hn, hb' n hn]
    · have hup : place <+: folder := (List.prefix_concat_iff.1 habove).resolve_left (hp n hn)
      obtain ⟨entries, h⟩ := hf.of_prefix hup
      obtain ⟨entries', h'⟩ := hf'.of_prefix hup
      rw [h, h']
      rfl

theorem at?_eq_file_iff {bytes : ByteArray} : t.at? place = some (file bytes) ↔
    (t.at? place).map top = some (file bytes) := by
  cases t.at? place with
  | none => simp
  | some u => cases u <;> simp [top, empty]

theorem isFolderAt_iff : t.IsFolderAt place ↔ (t.at? place).map top = some empty := by
  unfold IsFolderAt
  cases t.at? place with
  | none => simp
  | some u => cases u <;> simp [top, empty]

/-! ## Places that are kept -/

/-- Whether the same stands at a place in two trees: a file with the same bytes, a folder, or nothing. -/
def SameAt (t t' : FileTree) (place : List String) : Prop :=
  (t'.at? place).map top = (t.at? place).map top

/-- Whether the same stands at a place as before, or one of the folders made where nothing was. -/
def KeptOrMade (made : List (List String)) (t t' : FileTree) (place : List String) : Prop :=
  SameAt t t' place ∨ (place ∈ made ∧ t.at? place = none ∧ t'.IsFolderAt place)

variable {made : List (List String)}

theorem SameAt.trans (h : SameAt t t' place) (h' : SameAt t' t'' place) : SameAt t t'' place :=
  Eq.trans h' h

theorem SameAt.isFolderAt_iff (h : SameAt t t' place) : t'.IsFolderAt place ↔ t.IsFolderAt place := by
  rw [FileTree.isFolderAt_iff, FileTree.isFolderAt_iff, h]

theorem SameAt.eq_none_iff (h : SameAt t t' place) : t'.at? place = none ↔ t.at? place = none := by
  rw [← Option.map_eq_none_iff (f := top), h, Option.map_eq_none_iff]

/-- Editing a place with nothing in it keeps all others. -/
theorem Edited.sameAt {found : Option FileTree} (h : Edited found place t t') (hb : t.IsBareAt place)
    (hb' : t'.IsBareAt place) {other : List String} (ho : other ≠ place) : SameAt t t' other := by
  unfold SameAt
  by_cases hbelow : place <+: other
  · obtain ⟨rest, rfl⟩ := hbelow
    cases rest with
    | nil => exact absurd (List.append_nil _) ho
    | cons name names => rw [hb, hb']
  · by_cases habove : other <+: place
    · rw [isFolderAt_iff.1 (h.isFolderAt_above habove ho), isFolderAt_iff.1 (h.symm.isFolderAt_above habove ho)]
    · rw [h.at?_aside ⟨hbelow, habove⟩]

theorem KeptOrMade.refl (t : FileTree) : KeptOrMade made t t place :=
  .inl rfl

theorem KeptOrMade.trans (h : KeptOrMade made t t' place) (h' : KeptOrMade made t' t'' place) :
    KeptOrMade made t t'' place := by
  rcases h with hsame | ⟨hmem, hbefore, hafter⟩
  · exact h'.imp hsame.trans fun ⟨hmem, hbefore, hafter⟩ => ⟨hmem, hsame.eq_none_iff.1 hbefore, hafter⟩
  · rcases h' with hsame | ⟨-, hnone, -⟩
    · exact .inr ⟨hmem, hbefore, hsame.isFolderAt_iff.2 hafter⟩
    · exact absurd hafter (not_isFolderAt_of_none hnone)

theorem KeptOrMade.sameAt (h : KeptOrMade made t t' place) (hp : place ∉ made) : SameAt t t' place :=
  h.resolve_right fun hm => hp hm.1

theorem KeptOrMade.isFolderAt (h : KeptOrMade made t t' place) (hf : t.IsFolderAt place) : t'.IsFolderAt place :=
  h.elim (fun hsame => hsame.isFolderAt_iff.2 hf) fun hm => hm.2.2

theorem KeptOrMade.file_iff (h : KeptOrMade made t t' place) (bytes : ByteArray) :
    t.at? place = some (file bytes) ↔ t'.at? place = some (file bytes) := by
  rcases h with hsame | ⟨-, hnone, entries, hfolder⟩
  · rw [at?_eq_file_iff, at?_eq_file_iff, hsame]
  · rw [hnone, hfolder]
    simp

/-- Making a folder keeps everything, or makes the folder where nothing was. -/
theorem makeFolder_keptOrMade (ht : t.Plain) {path : String} (hm : location path ∈ made) :
    (t.makeFolder path).2.Plain ∧ ∀ place, KeptOrMade made t (t.makeFolder path).2 place := by
  rcases makeFolder_cases ht path with ⟨e, h⟩ | ⟨t', h, hnone, hedit, -⟩
  · rw [h]
    exact ⟨ht, fun _ => .refl t⟩
  · rw [h]
    refine ⟨hedit.plain ht fun u hu => by cases hu; exact linkFree_empty, fun place => ?_⟩
    have hnot := not_isFolderAt_of_none hnone
    by_cases hp : place = location path
    · subst hp
      exact .inr ⟨hm, hnone, [], hedit.at?_self⟩
    · exact .inl (hedit.sameAt (isBareAt_of_not_isFolderAt hnot) (isBareAt_of_empty hedit.at?_self) hp)

/-- Making folders keeps everything, but for the folders made. -/
theorem makeFolders_keptOrMade (ht : t.Plain) (path : String) (place : List String) :
    KeptOrMade ((Path.ancestors path).map location) t ((makeFolders path : TreeM _) t).2 place := by
  let R : FileTree → FileTree → Prop := fun t t' => t.Plain →
    t'.Plain ∧ ∀ place, KeptOrMade ((Path.ancestors path).map location) t t' place
  have hrefl : ∀ t, R t t := fun t ht => ⟨ht, fun _ => .refl t⟩
  have htrans : ∀ t t' t'', R t t' → R t' t'' → R t t'' := fun _ _ _ h h' ht =>
    ⟨(h' (h ht).1).1, fun place => ((h ht).2 place).trans ((h' (h ht).1).2 place)⟩
  have hmake : ∀ folder ∈ Path.ancestors path, Moves R (FileStore.makeFolder folder : TreeM _) :=
    fun folder hf t ht => makeFolder_keptOrMade ht (List.mem_map_of_mem hf)
  exact (moves_makeFolders hrefl htrans path hmake t ht).2 place

/-! ## Files that are kept -/

/-- A tree in which the folders of another are, and all files but those at some places are the same. -/
structure Spares (off : List (List String)) (t t' : FileTree) : Prop where
  folders : ∀ place, t.IsFolderAt place → t'.IsFolderAt place
  files : ∀ place ∉ off, ∀ bytes, t.at? place = some (file bytes) ↔ t'.at? place = some (file bytes)

variable {off off' : List (List String)}

theorem Spares.trans (h : Spares off t t') (h' : Spares off t' t'') : Spares off t t'' where
  folders place hp := h'.folders place (h.folders place hp)
  files place hp bytes := (h.files place hp bytes).trans (h'.files place hp bytes)

theorem Spares.mono (h : Spares off t t') (hoff : off ⊆ off') : Spares off' t t' where
  folders := h.folders
  files place hp := h.files place fun hmem => hp (hoff hmem)

/-- Making folders brings no file and takes none. -/
theorem makeFolders_spares (ht : t.Plain) (path : String) : Spares [] t ((makeFolders path : TreeM _) t).2 where
  folders place := (makeFolders_keptOrMade ht path place).isFolderAt
  files place _ := (makeFolders_keptOrMade ht path place).file_iff

end FileTree

section

variable {n target : String} {bytes : ByteArray}

/-- Where a file has been replaced, neither it nor its temporary file is a folder, and neither was. -/
theorem Replaced.not_isFolderAt (h : Replaced target n bytes t (.ok ()) t') {m : String} (hm : m ∈ [n, n ++ ".tmp"]) :
    ¬t.IsFolderAt (location target ++ [m]) ∧ ¬t'.IsFolderAt (location target ++ [m]) := by
  have hafter : ¬t'.IsFolderAt (location target ++ [m]) := by
    rcases List.mem_pair.1 hm with rfl | rfl
    · exact not_isFolderAt_of_file (h.written rfl)
    · exact not_isFolderAt_of_none (h.temporary rfl)
  exact ⟨fun hbefore => hafter (h.folders _ hbefore), hafter⟩

/-- Replacing a file spares all others but its temporary file. -/
theorem Replaced.spares (h : Replaced target n bytes t (.ok ()) t') (hf : t.IsFolderAt (location target)) :
    Spares [location target ++ [n], location target ++ [n ++ ".tmp"]] t t' where
  folders := h.folders
  files place hp bytes := by
    have hplace : ∀ m ∈ [n, n ++ ".tmp"], place ≠ location target ++ [m] := by
      rintro m hm rfl
      exact hp (by simpa using hm)
    have htop := top_eq_of_aside [n, n ++ ".tmp"] hf (h.folders _ hf)
      (fun m hm => isBareAt_of_not_isFolderAt (h.not_isFolderAt hm).1)
      (fun m hm => isBareAt_of_not_isFolderAt (h.not_isFolderAt hm).2)
      (fun place ha => h.aside place (ha n (by simp)) (ha (n ++ ".tmp") (by simp))) hplace
    rw [at?_eq_file_iff, at?_eq_file_iff, htop]

end

end ResourceClient
