/-
Making folders in a tree without links. What `makeFolders` adds are empty folders on the way to the folder
that is wanted; nothing else changes, whether it succeeds or not, and after a success the way is open.
-/
import ResourceClient.Files.Store
import ResourceClient.Proofs.Files.Walk

namespace ResourceClient

/-- The second of two computations starts where the first ends. -/
theorem bind_run {σ α β : Type} (x : StateM σ α) (f : α → StateM σ β) (s : σ) :
    (x >>= f) s = f (x s).1 (x s).2 :=
  rfl

namespace FileTree

variable {t t' t'' : FileTree} {path : String} {made : List (List String)}

/-- A tree without links whose root is a folder. -/
structure Plain (t : FileTree) : Prop where
  linkFree : t.LinkFree
  root : t.IsFolderAt []

theorem Edited.plain {found : Option FileTree} {place : List String} (h : Edited found place t t') (ht : t.Plain)
    (hf : ∀ u, found = some u → u.LinkFree) : t'.Plain where
  linkFree := h.linkFree ht.linkFree hf
  root := h.isFolder

theorem Edited.plain_file {place : List String} {bytes : ByteArray} (h : Edited (some (file bytes)) place t t')
    (ht : t.Plain) : t'.Plain :=
  h.plain ht fun u hu => by cases hu; exact linkFree_file _

/-- A tree that has grown by folders at some places. -/
structure Grown (made : List (List String)) (t t' : FileTree) : Prop where
  plain : t'.Plain
  folders : ∀ place, t.IsFolderAt place → t'.IsFolderAt place
  /-- Only what lies above a new folder looks different. -/
  same : ∀ place, (∀ m ∈ made, ¬place <+: m) → t'.at? place = t.at? place

theorem Grown.refl (ht : t.Plain) : Grown made t t :=
  ⟨ht, fun _ h => h, fun _ _ => rfl⟩

theorem Grown.trans (h : Grown made t t') (h' : Grown made t' t'') : Grown made t t'' where
  plain := h'.plain
  folders place hp := h'.folders place (h.folders place hp)
  same place hp := (h'.same place hp).trans (h.same place hp)

theorem Grown.mono {more : List (List String)} (h : Grown made t t') (hm : made ⊆ more) : Grown more t t' where
  plain := h.plain
  folders := h.folders
  same place hp := h.same place fun m hmem => hp m (hm hmem)

/-- A new empty folder changes only what lies above it. -/
theorem Edited.grown {place : List String} (h : Edited (some empty) place t t') (ht : t.Plain)
    (hn : t.at? place = none) (hm : place ∈ made) : Grown made t t' where
  plain := h.plain ht fun u hu => by cases hu; exact linkFree_empty
  folders _ ho := h.isFolderAt (not_isFolderAt_of_none hn) ho
  same other ho := by
    have hnot : ¬other <+: place := ho place hm
    by_cases hp : place <+: other
    · -- nothing lay in the folder before, and nothing does in the new one
      obtain ⟨below, rfl⟩ := hp
      cases below with
      | nil => exact absurd List.prefix_rfl (by rwa [List.append_nil] at hnot)
      | cons name names => rw [at?_append, at?_append, h.at?_self, hn]; rfl
    · exact h.at?_aside ⟨hp, hnot⟩

/-- Making a folder fails and changes nothing, or puts an empty folder where nothing was. -/
theorem makeFolder_cases (ht : t.Plain) (path : String) :
    (∃ e, t.makeFolder path = (.error e, t)) ∨
    ∃ t', t.makeFolder path = (.ok (), t') ∧ t.at? (location path) = none ∧
      Edited (some empty) (location path) t t' ∧ t'.Open [] (FileTree.steps path) := by
  unfold makeFolder
  rcases hp : t.place false path with e | p
  · exact .inl ⟨e, rfl⟩
  · have hreach := place_reaches ht.linkFree ht.root hp
    generalize hsteps : FileTree.steps path = steps at hreach ⊢
    cases hreach with
    | folder _ _ => exact .inl ⟨_, rfl⟩
    | file _ _ _ => exact .inl ⟨_, rfl⟩
    | @free front blanks name through step blank found =>
      have hedit := edited_put empty name (through.isFolderAt ht.root)
      have hblanks : ∀ here, follow here blanks = here := by
        intro here
        rw [← follow_filter, List.filter_eq_nil_iff.2 fun s hs => by simp [blank s hs, isIdleStep]]
        rfl
      have hloc : location path = follow [] front ++ [name] := by
        rw [location, hsteps, follow_append]
        show follow (move _ name) blanks = _
        rw [hblanks, step.move_eq]
      have hfolders : ∀ place, t.IsFolderAt place → IsFolderAt (put empty (follow [] front ++ [name]) t) place :=
        fun _ hp => hedit.isFolderAt (not_isFolderAt_of_none found) hp
      refine .inr ⟨_, rfl, hloc ▸ found, hloc ▸ hedit, open_append.2 ⟨through.mono hfolders, ?_⟩⟩
      -- the last name leads to the new folder, and the blanks stand still there
      have hnew : IsFolderAt (put empty (follow [] front ++ [name]) t) (follow [] front ++ [name]) := ⟨[], hedit.at?_self⟩
      refine ⟨by rw [step.move_eq]; exact hnew, ?_⟩
      rw [step.move_eq, ← open_filter hnew, List.filter_eq_nil_iff.2 fun s hs => by simp [blank s hs, isIdleStep]]
      trivial

theorem open_of_hasFolder (ht : t.Plain) (h : t.hasFolder path = true) : t.Open [] (FileTree.steps path) := by
  unfold hasFolder at h
  split at h
  · rename_i u hp
    have hreach := place_reaches ht.linkFree ht.root hp
    generalize FileTree.steps path = steps at hreach ⊢
    cases hreach with
    | folder through _ => exact through
    | file _ _ _ => cases h
  · cases h

theorem unlessThere_eq (path : String) (r : Except FileError Unit) (t : FileTree) :
    (unlessThere path r : TreeM _) t =
      (match r with
       | .ok () => .ok ()
       | .error e => if t.hasFolder path then .ok () else .error e, t) := by
  cases r <;> rfl

/-- After a folder is made or found to be there the way to it is open. -/
theorem unlessThere_makeFolder (ht : t.Plain) (path : String) :
    ∃ r t', (unlessThere path (t.makeFolder path).1 : TreeM _) (t.makeFolder path).2 = (r, t') ∧
      Grown [location path] t t' ∧ (r = .ok () → t'.Open [] (FileTree.steps path)) := by
  rcases makeFolder_cases ht path with ⟨e, h⟩ | ⟨t', h, hnone, hedit, ho⟩
  · rw [h, unlessThere_eq]
    refine ⟨_, t, rfl, Grown.refl ht, fun hr => ?_⟩
    simp only at hr
    split at hr
    · rename_i hf
      exact open_of_hasFolder ht hf
    · cases hr
  · rw [h, unlessThere_eq]
    exact ⟨_, t', rfl, hedit.grown ht hnone (List.mem_singleton_self _), fun _ => ho⟩

theorem makeChain_nil (t : FileTree) :
    (makeChain [] : TreeM _) t = (.error (.other "failed to create whole tree"), t) :=
  rfl

theorem makeChain_empty (parents : List String) (t : FileTree) :
    (makeChain ("" :: parents) : TreeM _) t = (.ok (), t) :=
  rfl

/-- A folder is made outright, or its parents are made first. -/
theorem makeChain_cons (parents : List String) (hp : path ≠ "") (t : FileTree) :
    (makeChain (path :: parents) : TreeM _) t =
      if (t.makeFolder path).1 = .error .missing then
        match (makeChain parents : TreeM _) (t.makeFolder path).2 with
        | (.ok (), t') => (unlessThere path (t'.makeFolder path).1 : TreeM _) (t'.makeFolder path).2
        | (.error e, t') => (.error e, t')
      else (unlessThere path (t.makeFolder path).1 : TreeM _) (t.makeFolder path).2 := by
  rw [makeChain, if_neg hp]
  rcases h : t.makeFolder path with ⟨r, t₁⟩
  have hrun : (FileStore.makeFolder path : TreeM _) t = (r, t₁) := h
  rw [bind_run, hrun]
  rcases r with e | _
  · cases e
    case missing =>
      simp only [↓reduceIte]
      rw [bind_run]
      rcases (makeChain parents : TreeM _) t₁ with ⟨r₁, t₂⟩
      cases r₁ <;> rfl
    all_goals rfl
  · rfl

/-- What making a chain of folders leaves behind. -/
theorem makeChain_grown (paths : List String) (ht : t.Plain) :
    ∃ r t', (makeChain paths : TreeM _) t = (r, t') ∧ Grown (paths.map location) t t' ∧
      (r = .ok () → ∀ path ∈ paths.head?, t'.Open [] (FileTree.steps path)) := by
  induction paths generalizing t with
  | nil => exact ⟨_, t, makeChain_nil t, Grown.refl ht, fun hr => by cases hr⟩
  | cons path parents ih =>
    have hself : [location path] ⊆ (path :: parents).map location := by simp
    have hrest : parents.map location ⊆ (path :: parents).map location := by simp
    by_cases hp : path = ""
    · subst hp
      refine ⟨_, t, makeChain_empty parents t, Grown.refl ht, fun _ path hpath => ?_⟩
      cases hpath
      exact ⟨ht.root, trivial⟩
    · rw [makeChain_cons parents hp]
      obtain ⟨r, t', hr, hgrown, ho⟩ := unlessThere_makeFolder ht path
      split
      · rename_i hmissing
        have hleft : (t.makeFolder path).2 = t := by
          rcases makeFolder_cases ht path with ⟨e, h⟩ | ⟨t', h, -⟩
          · rw [h]
          · rw [h] at hmissing; cases hmissing
        obtain ⟨r₁, t₁, h₁, hgrown₁, -⟩ := ih ht
        rw [hleft, h₁]
        cases r₁ with
        | error e => exact ⟨_, t₁, rfl, hgrown₁.mono hrest, fun hr => by cases hr⟩
        | ok _ =>
          obtain ⟨r₂, t₂, h₂, hgrown₂, ho₂⟩ := unlessThere_makeFolder hgrown₁.plain path
          refine ⟨r₂, t₂, h₂, (hgrown₁.mono hrest).trans (hgrown₂.mono hself), fun hok p hmem => ?_⟩
          cases hmem
          exact ho₂ hok
      · refine ⟨r, t', hr, hgrown.mono hself, fun hok p hmem => ?_⟩
        cases hmem
        exact ho hok

/-- What making a folder leaves behind: it grows the tree on the way, and a success opens the way. -/
theorem makeFolders_grown (ht : t.Plain) (path : String) :
    ∃ r t', (makeFolders path : TreeM _) t = (r, t') ∧ Grown ((Path.ancestors path).map location) t t' ∧
      (r = .ok () → t'.Open [] (Path.names path)) := by
  obtain ⟨r, t', h, hgrown, ho⟩ := makeChain_grown (Path.ancestors path) ht
  refine ⟨r, t', h, hgrown, fun hr => ?_⟩
  rw [← open_steps_iff hgrown.plain.root]
  exact ho hr path rfl

/-- A folder that is there is not made again. -/
theorem makeFolders_of_open (ht : t.Plain) (ho : t.Open [] (Path.names path)) :
    (makeFolders path : TreeM _) t = (.ok (), t) := by
  by_cases hp : path = ""
  · subst hp
    rfl
  · obtain ⟨entries, hfound⟩ := ho.isFolderAt_location ht.root
    have hplace := place_of_open ht.root hp ho hfound
    have hmake : t.makeFolder path = (.error .occupied, t) := by
      unfold makeFolder
      rw [hplace]
    have hthere : t.hasFolder path = true := by
      unfold hasFolder
      rw [hplace]
      rfl
    show (makeChain (path :: _) : TreeM _) t = _
    rw [makeChain_cons _ hp, hmake, if_neg (by simp), unlessThere_eq]
    simp only [hthere, ↓reduceIte]

end FileTree

end ResourceClient
