/-
A single writing is all or nothing, in a tree without links. When it succeeds, the file is there with its text, its
temporary file is not, and nothing else has changed but that folders on the way have been made; when it fails, nothing
has changed but these folders and the temporary file, and the error names the step that failed.
-/
import ResourceClient.Proofs.Artifact.Written
import ResourceClient.Proofs.Files.Steps

namespace ResourceClient

open FileTree

variable {t t' : FileTree} {path parent n content : String} {bytes : ByteArray} {r : Except WriteError Unit}
  {place : List String}

/-! ## Places -/

section

variable (hn : Path.fileName? path = some n) (hp : Path.parent? path = some parent)

include hn hp

theorem location_of_fileName? : location path = location parent ++ [n] := by
  obtain ⟨parent', hp', hname, hnames⟩ := Path.names_of_fileName? hn
  cases hp.symm.trans hp'
  exact location_of_names hname hnames

theorem location_temporaryPath : location (temporaryPath path) = location parent ++ [n ++ ".tmp"] := by
  obtain ⟨-, -, hname, -⟩ := Path.names_of_fileName? hn
  rw [temporaryPath_eq hn hp, location_join hname.temporary]

theorem location_ne_temporaryPath : location path ≠ location (temporaryPath path) := by
  rw [location_of_fileName? hn hp, location_temporaryPath hn hp, ne_eq, List.append_cancel_left_eq, List.singleton_inj]
  exact (Path.temporary_ne n).symm

end

/-- The places of the folders that lead to a folder, its own among them. -/
def wayPlaces (folder : String) : List (List String) :=
  (Path.ancestors folder).map location

/-- The way to an open folder goes through folders. -/
theorem isFolderAt_of_mem_wayPlaces (hr : t.IsFolderAt []) (ho : t.Open [] (Path.names parent))
    (hp : place ∈ wayPlaces parent) : t.IsFolderAt place := by
  obtain ⟨folder, hf, rfl⟩ := List.mem_map.1 hp
  obtain ⟨rest, hnames⟩ := Path.names_le_of_mem_ancestors hf
  rw [← hnames, open_append] at ho
  exact ho.1.isFolderAt_location hr

/-- The way to the parent of a path passes by the path when that never goes up. -/
theorem not_mem_wayPlaces_of_no_up (hn : Path.fileName? path = some n) (hp : Path.parent? path = some parent)
    (h : ".." ∉ Path.names path) : location path ∉ wayPlaces parent := by
  obtain ⟨parent', hp', hname, hnames⟩ := Path.names_of_fileName? hn
  cases hp.symm.trans hp'
  have hup : ".." ∉ Path.names parent := fun hm => h (by rw [hnames]; exact List.mem_append_left _ hm)
  intro hmem
  obtain ⟨folder, hf, hloc⟩ := List.mem_map.1 hmem
  have hjoin : location (Path.join parent n) = location folder := by
    rw [hloc, location_join hname, location_of_fileName? hn hp]
  exact passesBy_of_no_up hname hup folder hf (hjoin ▸ List.prefix_rfl)

/-! ## The try and the other places -/

/-- A file that is put at a place and taken away again leaves all other places as they were. -/
theorem FileTree.Edited.sameAt_undone {t₁ t₂ : FileTree} {other : List String}
    (written : Edited (some (.file bytes)) place t t₁) (erased : Edited none place t₁ t₂) (free : ¬t.IsFolderAt place)
    (ho : other ≠ place) : SameAt t t₂ other := by
  have hfile := isBareAt_of_not_isFolderAt (not_isFolderAt_of_file written.at?_self)
  have hgone := isBareAt_of_not_isFolderAt (not_isFolderAt_of_none erased.at?_self)
  exact (written.sameAt (isBareAt_of_not_isFolderAt free) hfile ho).trans (erased.sameAt hfile hgone ho)

/-- The try to write a file changes no place but those of the file and the temporary file, and that of the file only by
a success. -/
theorem Attempt.sameAt (h : Attempt path parent n bytes t r t') (htemporary : place ≠ location parent ++ [n ++ ".tmp"])
    (hentry : r = .ok () → place ≠ location parent ++ [n]) : SameAt t t' place := by
  cases h with
  | refused _ _ => rfl
  | undone free _ written _ _ erased => exact written.sameAt_undone erased free htemporary
  | moved free written erased _ free' put =>
    have hput := isBareAt_of_not_isFolderAt (not_isFolderAt_of_file put.at?_self)
    have hundone := written.sameAt_undone erased free htemporary
    exact hundone.trans (put.sameAt (isBareAt_of_not_isFolderAt free') hput (hentry rfl))

/-- The try fails when a folder stands at the place of the file. -/
theorem Attempt.error_of_isFolderAt (h : Attempt path parent n bytes t r t')
    (hf : t.IsFolderAt (location parent ++ [n])) : ∃ e, r = .error e := by
  cases h with
  | refused _ _ => exact ⟨_, rfl⟩
  | undone _ _ _ _ _ _ => exact ⟨_, rfl⟩
  | moved free written erased _ free' _ =>
    have hfile := not_isFolderAt_of_file written.at?_self
    exact absurd (erased.isFolderAt hfile (written.isFolderAt free hf)) free'

/-! ## All or nothing -/

/-- What is left by the writing of a file, when it succeeds. -/
structure Completed (path parent content : String) (t t' : FileTree) : Prop where
  holds : Holds t' path content
  temporary : t'.at? (location (temporaryPath path)) = none
  /-- The folders on the way are there, those that were missing have been made. -/
  way : ∀ place ∈ wayPlaces parent, t'.IsFolderAt place
  others : ∀ place, place ≠ location path → place ≠ location (temporaryPath path) →
    KeptOrMade (wayPlaces parent) t t' place

/-- `FailedStep path parent content t e t'`: the step that failed in the writing of a file, which the error names by a
path, and what the step left. -/
inductive FailedStep (path parent content : String) (t : FileTree) : WriteError → FileTree → Prop
  | parents {cause : FileError} {t' : FileTree} (make : (makeFolders parent : TreeM _) t = (.error cause, t')) :
    FailedStep path parent content t ⟨parent, cause⟩ t'
  | temporary {cause : FileError} {t' : FileTree} (make : (makeFolders parent : TreeM _) t = (.ok (), t'))
    (write : t'.write (temporaryPath path) content.toUTF8 = (.error cause, t')) :
    FailedStep path parent content t ⟨temporaryPath path, cause⟩ t'
  | rename {cause : FileError} {t₀ t₁ t' : FileTree} (make : (makeFolders parent : TreeM _) t = (.ok (), t₀))
    (write : t₀.write (temporaryPath path) content.toUTF8 = (.ok (), t₁))
    (rename : t₁.rename (temporaryPath path) path = (.error cause, t₁))
    (gone : t'.at? (location (temporaryPath path)) = none) : FailedStep path parent content t ⟨path, cause⟩ t'

/-- What is left by the writing of a file, when it fails. -/
structure Abandoned (path parent content : String) (t : FileTree) (e : WriteError) (t' : FileTree) : Prop where
  step : FailedStep path parent content t e t'
  /-- What was at the path still is, if the way to its parent does not lead to it. -/
  target : location path ∉ wayPlaces parent → SameAt t t' (location path)
  /-- Everywhere else too, but for the temporary file and the folders made. -/
  others : ∀ place ≠ location (temporaryPath path), KeptOrMade (wayPlaces parent) t t' place

section

variable {t₀ : FileTree} (hn : Path.fileName? path = some n) (hp : Path.parent? path = some parent)

include hn hp

/-- What a try leaves after the folders on the way have been made. -/
theorem Attempt.keptOrMade (h : Attempt path parent n bytes t₀ r t')
    (hmade : ∀ place, KeptOrMade (wayPlaces parent) t t₀ place) (htmp : place ≠ location (temporaryPath path))
    (hplace : r = .ok () → place ≠ location path) : KeptOrMade (wayPlaces parent) t t' place := by
  rw [location_temporaryPath hn hp] at htmp
  rw [location_of_fileName? hn hp] at hplace
  exact (hmade place).trans (.inl (h.sameAt htmp hplace))

theorem Attempt.abandoned {e : WriteError} (h : Attempt path parent n content.toUTF8 t₀ (.error e) t')
    (hmake : (makeFolders parent : TreeM _) t = (.ok (), t₀))
    (hmade : ∀ place, KeptOrMade (wayPlaces parent) t t₀ place) : Abandoned path parent content t e t' where
  step := by
    cases h with
    | refused _ write => exact .temporary hmake write
    | undone _ write _ rename _ erased =>
      exact .rename hmake write rename (by rw [location_temporaryPath hn hp, erased.at?_self])
  target := (h.keptOrMade hn hp hmade (location_ne_temporaryPath hn hp) nofun).sameAt
  others _ htmp := h.keptOrMade hn hp hmade htmp nofun

theorem Attempt.completed (h : Attempt path parent n content.toUTF8 t₀ (.ok ()) t') (ht : t₀.Plain)
    (ho : t₀.Open [] (Path.names parent)) (hmade : ∀ place, KeptOrMade (wayPlaces parent) t t₀ place) :
    Completed path parent content t t' := by
  obtain ⟨-, -, hname, -⟩ := Path.names_of_fileName? hn
  have hends : Path.EndsIn path parent n := by
    cases h with
    | moved _ _ _ ends _ _ => exact ends
  have hreplaced := h.replaced ht hends
  have ho' := ho.mono hreplaced.folders
  have hthere := hreplaced.written rfl
  exact {
    holds := ⟨read_of_endsIn hreplaced.plain hname hends ho' hthere, by rw [location_of_fileName? hn hp, hthere]⟩
    temporary := by rw [location_temporaryPath hn hp, hreplaced.temporary rfl]
    way := fun _ => isFolderAt_of_mem_wayPlaces hreplaced.plain.root ho'
    others := fun _ hplace htmp => h.keptOrMade hn hp hmade htmp fun _ => hplace }

end

/-- Writing a file is all or nothing. -/
theorem writeAtomic_whole (ht : t.Plain) (hn : Path.fileName? path = some n) (content : String) :
    ∃ parent, Path.parent? path = some parent ∧
      match (writeAtomic path content : TreeM _) t with
      | (.ok (), t') => Completed path parent content t t'
      | (.error e, t') => Abandoned path parent content t e t' := by
  obtain ⟨parent, hp, -⟩ := Path.names_of_fileName? hn
  refine ⟨parent, hp, ?_⟩
  obtain ⟨r₀, t₀, hmake, hgrown, ho⟩ := makeFolders_grown ht parent
  have hmade : ∀ place, KeptOrMade (wayPlaces parent) t t₀ place := by
    intro place
    have hkept := makeFolders_keptOrMade ht parent place
    rwa [hmake] at hkept
  have hparent : (makeParent path : TreeM _) t = (r₀.mapError (⟨parent, ·⟩), t₀) := by rw [makeParent_eq hp, hmake]
  cases r₀ with
  | error cause =>
    have hrun : (writeAtomic path content : TreeM _) t = (.error ⟨parent, cause⟩, t₀) := by
      unfold writeAtomic
      rw [bind_run, hparent]
      rfl
    rw [hrun]
    exact ⟨.parents hmake, (hmade _).sameAt, fun place _ => hmade place⟩
  | ok _ =>
    obtain ⟨r, t', hrun, hattempt⟩ := writeAtomic_of_makeParent hparent hgrown.plain hn hp (ho rfl) content
    rw [hrun]
    cases r with
    | error e => exact hattempt.abandoned hn hp hmake hmade
    | ok _ => exact hattempt.completed hn hp hgrown.plain (ho rfl) hmade

/-- A file written into a new folder. -/
theorem writeAtomic_whole_new : FileTree.empty.Plain ∧ Path.fileName? "out/api.ts" = some "api.ts" ∧
    location "out/api.ts" ∉ wayPlaces "out" ∧
    match (writeAtomic "out/api.ts" "export {};" : TreeM _) FileTree.empty with
    | (.ok (), t') => Completed "out/api.ts" "out" "export {};" FileTree.empty t'
    | (.error e, t') => Abandoned "out/api.ts" "out" "export {};" FileTree.empty e t' := by
  have ht : FileTree.empty.Plain := ⟨linkFree_empty, [], rfl⟩
  have hn : Path.fileName? "out/api.ts" = some "api.ts" := by decide
  have hout : Path.parent? "out/api.ts" = some "out" := by decide
  obtain ⟨parent, hp, hwhole⟩ := writeAtomic_whole ht hn "export {};"
  cases hout.symm.trans hp
  exact ⟨ht, hn, not_mem_wayPlaces_of_no_up hn hp (by decide), hwhole⟩

/-- A folder is made on the way also when the way goes up again. -/
theorem makeFolders_up : (makeFolders "a/.." : TreeM _) FileTree.empty = (.ok (), .folder [("a", .folder [])]) := by
  have hname : IsStep "a" := ⟨by decide, by decide⟩
  have hup : FileTree.steps "a/.." = ["a", ".."] := by decide
  have hown : FileTree.steps "a" = ["a"] := by decide
  have hmissing : FileTree.empty.makeFolder "a/.." = (.error .missing, FileTree.empty) := by
    unfold makeFolder
    rw [place, if_neg (by decide), hup, walk, if_neg hname.idle, if_neg hname.up]
    rfl
  have hmade : FileTree.empty.makeFolder "a" = (.ok (), .folder [("a", .folder [])]) := by
    unfold makeFolder
    rw [place, if_neg (by decide), hown, walk_last linkFree_empty hname]
    rfl
  have hthere : ∀ followLast, (FileTree.folder [("a", .folder [])]).place followLast "a/.." =
      .ok (.taken [] (.folder [("a", .folder [])])) := by
    intro followLast
    rw [place, if_neg (by decide), hup, walk_folder ⟨[], rfl⟩, walk_folder ⟨_, rfl⟩, walk]
    rfl
  show (makeChain (Path.ancestors "a/..") : TreeM _) _ = _
  rw [show Path.ancestors "a/.." = ["a/..", "a", ""] by decide, makeChain_cons _ (by decide), hmissing,
    if_pos rfl, makeChain_cons _ (by decide), hmade, if_neg (by simp)]
  show (unlessThere "a/.." (makeFolder _ "a/..").1 : TreeM _) (makeFolder _ "a/..").2 = _
  unfold makeFolder
  rw [hthere, unlessThere_eq, hasFolder, hthere]
  rfl

/-- A path that goes up again after a folder of its own name: nothing was at its place, the writing fails, and the folder
that was made on the way is there. -/
theorem writeAtomic_leaves_folder : FileTree.empty.Plain ∧ Path.fileName? "a/../a" = some "a" ∧
    FileTree.empty.at? (location "a/../a") = none ∧
    ∃ e t', (writeAtomic "a/../a" "x" : TreeM _) FileTree.empty = (.error e, t') ∧ t'.IsFolderAt (location "a/../a") := by
  have ht : FileTree.empty.Plain := ⟨linkFree_empty, [], rfl⟩
  have hn : Path.fileName? "a/../a" = some "a" := by decide
  have hp : Path.parent? "a/../a" = some "a/.." := by decide
  have hloc : location "a/../a" = ["a"] := by decide
  have hentry : location "a/.." ++ ["a"] = ["a"] := by decide
  obtain ⟨r₀, t₀, h₀, hgrown, ho⟩ := makeFolders_grown ht "a/.."
  cases makeFolders_up.symm.trans h₀
  have hfolder : (FileTree.folder [("a", .folder [])]).IsFolderAt ["a"] := ⟨[], rfl⟩
  have hparent : (makeParent "a/../a" : TreeM _) FileTree.empty = (.ok (), .folder [("a", .folder [])]) := by
    rw [makeParent_eq hp, makeFolders_up]
    rfl
  obtain ⟨r, t', hrun, hattempt⟩ := writeAtomic_of_makeParent hparent hgrown.plain hn hp (ho rfl) "x"
  obtain ⟨e, rfl⟩ := hattempt.error_of_isFolderAt (hentry ▸ hfolder)
  have hsame : SameAt (FileTree.folder [("a", .folder [])]) t' ["a"] := hattempt.sameAt (by decide) nofun
  exact ⟨ht, hn, by rw [hloc]; rfl, e, t', hrun, hloc ▸ hsame.isFolderAt_iff.2 hfolder⟩

end ResourceClient
