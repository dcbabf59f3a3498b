/-
Replacing a file as a whole, in a tree without links. A file is written beside its place and moved there, so
at its place stands the new file or what stood there before; of all other places only that of the temporary
file can change.
-/
import ResourceClient.Artifact.Write
import ResourceClient.Proofs.Files.Folders

namespace ResourceClient

namespace FileTree

variable {t t' : FileTree} {path folder n : String}

/-! ## Operations on the entries of an open folder -/

/-- A file at an entry of an open folder can be read by a path that ends in its name. -/
theorem read_of_endsIn (ht : t.Plain) (hn : Path.IsName n) (he : Path.EndsIn path folder n)
    (ho : t.Open [] (Path.names folder)) {bytes : ByteArray} (h : t.at? (location folder ++ [n]) = some (file bytes)) :
    t.read path = .ok bytes := by
  unfold read
  rw [place_of_endsIn he ht.linkFree ht.root hn ho true]
  unfold entryPlace
  rw [h]

theorem read_join (ht : t.Plain) (hn : Path.IsName n) (ho : t.Open [] (Path.names folder)) {bytes : ByteArray}
    (h : t.at? (location folder ++ [n]) = some (file bytes)) : t.read (Path.join folder n) = .ok bytes :=
  read_of_endsIn ht hn (Path.endsIn_join hn folder) ho h

/-- Writing an entry of an open folder fails for a folder there and changes nothing, or puts a file there. -/
theorem write_join (ht : t.Plain) (hn : Path.IsName n) (ho : t.Open [] (Path.names folder)) (bytes : ByteArray) :
    (∃ e, t.write (Path.join folder n) bytes = (.error e, t) ∧ t.IsFolderAt (location folder ++ [n])) ∨
    ∃ t', t.write (Path.join folder n) bytes = (.ok (), t') ∧ ¬t.IsFolderAt (location folder ++ [n]) ∧
      Edited (some (file bytes)) (location folder ++ [n]) t t' := by
  have hplace := place_join ht.linkFree ht.root hn ho true
  have hfolder := ho.isFolderAt_location ht.root
  have hedit := edited_put (file bytes) n hfolder
  unfold entryPlace at hplace
  unfold write
  rw [hplace]
  cases hat : t.at? (location folder ++ [n]) with
  | none => exact .inr ⟨_, rfl, not_isFolderAt_of_none hat, hedit⟩
  | some u =>
    cases u with
    | file _ => exact .inr ⟨_, rfl, not_isFolderAt_of_file hat, hedit⟩
    | link target => exact absurd hat (ht.linkFree _ target)
    | folder entries => exact .inl ⟨_, rfl, entries, hat⟩

/-- Removing a file from an open folder takes it away. -/
theorem remove_join (ht : t.Plain) (hn : Path.IsName n) (ho : t.Open [] (Path.names folder)) {bytes : ByteArray}
    (h : t.at? (location folder ++ [n]) = some (file bytes)) :
    ∃ t', t.remove (Path.join folder n) = (.ok (), t') ∧ Edited none (location folder ++ [n]) t t' := by
  have hplace := place_join ht.linkFree ht.root hn ho false
  have hfolder := ho.isFolderAt_location ht.root
  unfold entryPlace at hplace
  rw [h] at hplace
  unfold remove
  rw [hplace]
  exact ⟨_, rfl, edited_erase n hfolder⟩

theorem endsInName_of_endsIn (hn : Path.IsName n) (he : Path.EndsIn path folder n) : endsInName path = true := by
  obtain ⟨front, hf, -⟩ := steps_of_endsIn he
  have hstep := isStep_of_isName hn
  unfold endsInName
  rw [hf, List.reverse_concat, List.dropWhile_cons_of_neg (by simpa using hn.ne_empty)]
  simp only [Bool.and_eq_true, bne_iff_ne, ne_eq]
  exact ⟨fun h => hstep.idle (.inr h), hstep.up⟩

/-- A path ends in its last name unless a slash or a dot stands behind that. -/
theorem endsIn_or (h : Path.names path = Path.names folder ++ [n]) :
    Path.EndsIn path folder n ∨ endsInName path = false ∨ path.toList.getLast? = some '/' := by
  rcases List.eq_nil_or_concat (Path.segments path) with hnil | ⟨front, segment, hp⟩
  · exact .inl (Path.endsIn_of_names h (by rw [hnil]; nofun))
  · rw [List.concat_eq_append] at hp
    cases hs : Path.isIdle segment with
    | false => exact .inl (Path.endsIn_of_names h (by rw [hp, List.getLast?_concat]; rintro s ⟨⟩; exact hs))
    | true =>
      refine .inr ?_
      unfold Path.isIdle at hs
      rw [Bool.or_eq_true, beq_iff_eq, beq_iff_eq] at hs
      rcases hs with rfl | rfl
      · refine .inr (Path.getLast?_of_segments hp ?_)
        rintro rfl
        rw [Path.names, hp] at h
        simp [Path.isIdle] at h
      · refine .inl ?_
        unfold endsInName
        rw [steps_eq, hp, List.map_append, List.map_singleton, List.reverse_concat, List.dropWhile_cons_of_neg (by decide)]
        rfl

/-- Nothing is moved to a path that a slash or a dot ends. -/
theorem rename_of_not_endsIn {source : String} {place : List String} {u : FileTree}
    (hsource : t.place false source = .ok (.taken place u)) (hnames : Path.names path = Path.names folder ++ [n])
    (he : ¬Path.EndsIn path folder n) : ∃ e, t.rename source path = (.error e, t) := by
  unfold rename
  rw [hsource]
  cases t.place false path with
  | error e => exact ⟨e, rfl⟩
  | ok found =>
    rcases (endsIn_or hnames).resolve_left he with hname | hslash
    · simp only [hname, Bool.not_false, ↓reduceIte]
      exact ⟨_, rfl⟩
    · simp only [hslash, ↓reduceIte]
      split
      · exact ⟨_, rfl⟩
      · exact ⟨_, rfl⟩

/-- Moving a file to another entry of its folder fails for a folder there, or for a path that does not end in the name,
and changes nothing; or it takes the file from the one and puts it at the other. -/
theorem rename_entry (ht : t.Plain) {m : String} (hm : Path.IsName m) (hn : Path.IsName n)
    (hnames : Path.names path = Path.names folder ++ [n]) (ho : t.Open [] (Path.names folder)) {bytes : ByteArray}
    (h : t.at? (location folder ++ [m]) = some (file bytes)) :
    (∃ e, t.rename (Path.join folder m) path = (.error e, t) ∧
      (t.IsFolderAt (location folder ++ [n]) ∨ ¬Path.EndsIn path folder n)) ∨
    ∃ t₁ t', t.rename (Path.join folder m) path = (.ok (), t') ∧ Path.EndsIn path folder n ∧
      ¬t.IsFolderAt (location folder ++ [n]) ∧ Edited none (location folder ++ [m]) t t₁ ∧
      Edited (some (file bytes)) (location folder ++ [n]) t₁ t' := by
  have hsource := place_join ht.linkFree ht.root hm ho false
  unfold entryPlace at hsource
  rw [h] at hsource
  by_cases he : Path.EndsIn path folder n
  · have htarget := place_of_endsIn he ht.linkFree ht.root hn ho false
    have hfolder := ho.isFolderAt_location ht.root
    have herase := edited_erase m hfolder
    have hput := edited_put (file bytes) n (herase.isFolderAt (not_isFolderAt_of_file h) hfolder)
    unfold entryPlace at htarget
    unfold rename
    rw [hsource, htarget]
    simp only [endsInName_of_endsIn hn he, Bool.not_true, Bool.false_eq_true, ↓reduceIte, he.getLast? hn]
    cases hat : t.at? (location folder ++ [n]) with
    | none => exact .inr ⟨_, _, rfl, he, not_isFolderAt_of_none hat, herase, hput⟩
    | some u =>
      cases u with
      | file _ => exact .inr ⟨_, _, rfl, he, not_isFolderAt_of_file hat, herase, hput⟩
      | link path => exact absurd hat (ht.linkFree _ path)
      | folder entries => exact .inl ⟨_, rfl, .inl ⟨entries, hat⟩⟩
  · obtain ⟨e, hr⟩ := rename_of_not_endsIn hsource hnames he
    exact .inl ⟨e, hr, .inr he⟩

end FileTree

open FileTree

/-! ## The try to write a file -/

variable {t t' : FileTree} {path parent folder n : String} {bytes : ByteArray} {r : Except WriteError Unit}

/-- `Attempt path parent n bytes t r t'`: what can come of the try to write a file at an open folder's entry, to which a
path leads. -/
inductive Attempt (path parent n : String) (bytes : ByteArray) (t : FileTree) : Except WriteError Unit → FileTree → Prop
  /-- A folder is in the way of the temporary file. -/
  | refused {cause : FileError} (there : t.IsFolderAt (location parent ++ [n ++ ".tmp"]))
    (write : t.write (temporaryPath path) bytes = (.error cause, t)) :
    Attempt path parent n bytes t (.error ⟨temporaryPath path, cause⟩) t
  /-- The temporary file cannot be moved, and is taken away again. -/
  | undone {cause : FileError} {t₁ t₂ : FileTree} (free : ¬t.IsFolderAt (location parent ++ [n ++ ".tmp"]))
    (write : t.write (temporaryPath path) bytes = (.ok (), t₁))
    (written : Edited (some (.file bytes)) (location parent ++ [n ++ ".tmp"]) t t₁)
    (rename : t₁.rename (temporaryPath path) path = (.error cause, t₁))
    (blocked : t₁.IsFolderAt (location parent ++ [n]) ∨ ¬Path.EndsIn path parent n)
    (erased : Edited none (location parent ++ [n ++ ".tmp"]) t₁ t₂) :
    Attempt path parent n bytes t (.error ⟨path, cause⟩) t₂
  /-- The temporary file is moved to the entry. -/
  | moved {t₁ t₂ t₃ : FileTree} (free : ¬t.IsFolderAt (location parent ++ [n ++ ".tmp"]))
    (written : Edited (some (.file bytes)) (location parent ++ [n ++ ".tmp"]) t t₁)
    (erased : Edited none (location parent ++ [n ++ ".tmp"]) t₁ t₂)
    (ends : Path.EndsIn path parent n) (free' : ¬t₂.IsFolderAt (location parent ++ [n]))
    (put : Edited (some (.file bytes)) (location parent ++ [n]) t₂ t₃) :
    Attempt path parent n bytes t (.ok ()) t₃

theorem makeParent_eq (hp : Path.parent? path = some parent) (t : FileTree) :
    (makeParent path : TreeM _) t =
      (((makeFolders parent : TreeM _) t).1.mapError (⟨parent, ·⟩), ((makeFolders parent : TreeM _) t).2) := by
  have hmake : (makeParent path : TreeM _) = do return (← makeFolders parent).mapError (⟨parent, ·⟩) := by
    unfold makeParent
    split
    · rename_i h
      cases hp.symm.trans h
    · rename_i h
      cases hp.symm.trans h
      rfl
    · rename_i h
      cases hp.symm.trans h
      rfl
  rw [hmake]
  rfl

theorem makeParent_of_open (ht : t.Plain) (hp : Path.parent? path = some parent) (ho : t.Open [] (Path.names parent)) :
    (makeParent path : TreeM _) t = (.ok (), t) := by
  rw [makeParent_eq hp, makeFolders_of_open ht ho]
  rfl

/-- Once the folder is there, writing the file is such a try. -/
theorem writeAtomic_of_makeParent {t₀ : FileTree} (hm : (makeParent path : TreeM _) t₀ = (.ok (), t)) (ht : t.Plain)
    (hn : Path.fileName? path = some n) (hp : Path.parent? path = some parent) (ho : t.Open [] (Path.names parent))
    (content : String) :
    ∃ r t', (writeAtomic path content : TreeM _) t₀ = (r, t') ∧ Attempt path parent n content.toUTF8 t r t' := by
  obtain ⟨parent', hp', hname, hnames⟩ := Path.names_of_fileName? hn
  cases hp.symm.trans hp'
  have htemporary := temporaryPath_eq hn hp
  have hwrite : ∀ path bytes, (FileStore.write path bytes : TreeM _) t = t.write path bytes := fun _ _ => rfl
  unfold writeAtomic
  rw [bind_run, hm]
  simp only
  rw [bind_run, hwrite]
  rcases write_join ht hname.temporary ho content.toUTF8 with ⟨e, hw, hblocked⟩ | ⟨t₁, hw, hfree, hwritten⟩
  · rw [← htemporary] at hw
    rw [hw]
    exact ⟨_, t, rfl, .refused hblocked hw⟩
  · have ht₁ := hwritten.plain_file ht
    have ho₁ : t₁.Open [] (Path.names parent) := ho.mono fun place => hwritten.isFolderAt hfree
    have hthere := hwritten.at?_self
    have hrename : ∀ source target, (FileStore.rename source target : TreeM _) t₁ = t₁.rename source target :=
      fun _ _ => rfl
    rw [← htemporary] at hw
    rw [hw]
    simp only
    rw [bind_run, hrename]
    rcases rename_entry ht₁ hname.temporary hname hnames ho₁ hthere with
      ⟨e, hr, hblocked⟩ | ⟨t₂, t₃, hr, hends, hfree', herased, hput⟩
    · obtain ⟨t₂, hd, herased⟩ := remove_join ht₁ hname.temporary ho₁ hthere
      rw [← htemporary] at hr hd
      have hremove : (FileStore.remove (temporaryPath path) : TreeM _) t₁ = (.ok (), t₂) := hd
      rw [hr]
      simp only
      rw [bind_run, hremove]
      exact ⟨_, t₂, rfl, .undone hfree hw hwritten hr hblocked herased⟩
    · rw [← htemporary] at hr
      rw [hr]
      have hfree₂ : ¬t₂.IsFolderAt (location parent ++ [n]) := by
        rintro ⟨entries, hf⟩
        rw [herased.at?_aside (apart_entries (Path.temporary_ne n) _)] at hf
        exact hfree' ⟨entries, hf⟩
      exact ⟨_, t₃, rfl, .moved hfree hwritten herased hends hfree₂ hput⟩

/-! ## What is left by it -/

/-- What is left by the try to replace an entry of a folder by a file of some bytes. -/
structure Replaced (folder n : String) (bytes : ByteArray) (t : FileTree) (r : Except WriteError Unit)
    (t' : FileTree) : Prop where
  plain : t'.Plain
  folders : ∀ place, t.IsFolderAt place → t'.IsFolderAt place
  /-- Only the entry and its temporary file can change. -/
  aside : ∀ place, Apart (location folder ++ [n]) place → Apart (location folder ++ [n ++ ".tmp"]) place →
    t'.at? place = t.at? place
  written : r = .ok () → t'.at? (location folder ++ [n]) = some (.file bytes)
  kept : ∀ e, r = .error e → t'.at? (location folder ++ [n]) = t.at? (location folder ++ [n])
  /-- The temporary file does not outlast a success. -/
  temporary : r = .ok () → t'.at? (location folder ++ [n ++ ".tmp"]) = none
  /-- Nothing but a folder is in the way. -/
  blocked : ∀ e, r = .error e → t.IsFolderAt (location folder ++ [n]) ∨ t.IsFolderAt (location folder ++ [n ++ ".tmp"])

/-- A try to write a path that ends in the name of the entry replaces it or leaves it. -/
theorem Attempt.replaced (h : Attempt path parent n bytes t r t') (ht : t.Plain) (he : Path.EndsIn path parent n) :
    Replaced parent n bytes t r t' := by
  have ha := apart_entries (Path.temporary_ne n) (location parent)
  cases h with
  | refused there write => exact ⟨ht, fun _ h => h, fun _ _ _ => rfl, nofun, fun _ _ => rfl, nofun, fun _ _ => .inr there⟩
  | undone free write written rename blocked erased =>
    exact {
      plain := erased.plain (written.plain_file ht) nofun
      folders := fun place hp =>
        erased.isFolderAt (not_isFolderAt_of_file written.at?_self) (written.isFolderAt free hp)
      aside := fun place _ ha => by rw [erased.at?_aside ha, written.at?_aside ha]
      written := nofun
      kept := fun _ _ => by rw [erased.at?_aside ha, written.at?_aside ha]
      temporary := nofun
      blocked := fun _ _ => by
        obtain ⟨entries, hb⟩ := blocked.resolve_right (not_not.2 he)
        rw [written.at?_aside ha] at hb
        exact .inl ⟨entries, hb⟩ }
  | moved free written erased _ free' put =>
    exact {
      plain := put.plain_file (erased.plain (written.plain_file ht) nofun)
      folders := fun place hp => put.isFolderAt free'
        (erased.isFolderAt (not_isFolderAt_of_file written.at?_self) (written.isFolderAt free hp))
      aside := fun place h h' => by rw [put.at?_aside h, erased.at?_aside h', written.at?_aside h']
      written := fun _ => put.at?_self
      kept := nofun
      temporary := fun _ => by rw [put.at?_aside ha.symm, erased.at?_self]
      blocked := nofun }

/-- Writing a file into an open folder. -/
theorem writeAtomic_replaced (ht : t.Plain) (hn : Path.IsName n) (ho : t.Open [] (Path.names folder))
    (content : String) :
    ∃ r t', (writeAtomic (Path.join folder n) content : TreeM _) t = (r, t') ∧
      Replaced folder n content.toUTF8 t r t' := by
  obtain ⟨parent, hparent, hnames⟩ := Path.parent?_join hn folder
  have hop : t.Open [] (Path.names parent) := hnames ▸ ho
  have hloc : location parent = location folder := by rw [location_eq, hnames, ← location_eq]
  have hends : Path.EndsIn (Path.join folder n) parent n := by
    unfold Path.EndsIn
    rw [hnames]
    exact Path.endsIn_join hn folder
  obtain ⟨r, t', hrun, hattempt⟩ := writeAtomic_of_makeParent (makeParent_of_open ht hparent hop) ht
    (Path.fileName?_join hn folder) hparent hop content
  obtain ⟨plain, folders, aside, written, kept, temporary, blocked⟩ := hattempt.replaced ht hends
  rw [hloc] at aside written kept temporary blocked
  exact ⟨r, t', hrun, plain, folders, aside, written, kept, temporary, blocked⟩

end ResourceClient
