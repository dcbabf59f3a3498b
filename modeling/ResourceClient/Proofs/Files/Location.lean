/-
Where paths lead by their names alone. The segments of a path that say nothing can be left out, and a name
joined to a folder is the last step of the path: its parent leads where the folder does.
-/
import ResourceClient.Artifact.Write
import Mathlib.Data.List.Basic

namespace ResourceClient

namespace Path

variable {folder path n : String} {front : List (List Char)} {segment : List Char}

/-! ## Segments -/

theorem not_mem_of_mem_splitOn {cs : List Char} (h : segment ∈ cs.splitOn '/') : '/' ∉ segment := by
  induction cs generalizing segment with
  | nil =>
    rw [List.splitOn_nil, List.mem_singleton] at h
    rw [h]
    exact List.not_mem_nil
  | cons c cs ih =>
    obtain ⟨head, more, hs⟩ := List.exists_cons_of_ne_nil (List.splitOn_ne_nil '/' cs)
    rw [List.splitOn_cons_eq_if_modifyHead] at h
    split at h
    · rcases List.mem_cons.1 h with rfl | h
      · exact List.not_mem_nil
      · exact ih h
    · rename_i hc
      rw [hs, List.modifyHead_cons, List.mem_cons] at h
      rcases h with rfl | h
      · rw [List.mem_cons, not_or]
        exact ⟨fun he => hc (by rw [he, beq_self_eq_true]), ih (by rw [hs]; exact List.mem_cons_self)⟩
      · exact ih (by rw [hs]; exact List.mem_cons_of_mem _ h)

theorem not_mem_of_mem_segments (h : segment ∈ segments path) : '/' ∉ segment :=
  not_mem_of_mem_splitOn h

theorem segments_append_slash (a b : String) : segments (a ++ "/" ++ b) = segments a ++ segments b := by
  unfold segments
  rw [String.toList_append, String.toList_append, List.append_assoc]
  exact List.splitOn_append_cons_self _ _

theorem segments_of_not_mem (h : '/' ∉ n.toList) : segments n = [n.toList] :=
  List.splitOn_eq_singleton h

/-- A path whose last segment is empty ends in a slash. -/
theorem getLast?_of_segments (hp : segments path = front ++ [[]]) (hf : front ≠ []) :
    path.toList.getLast? = some '/' := by
  have hjoin : ∀ ss : List (List Char), ss ≠ [] → (['/'].intercalate (ss ++ [[]])).getLast? = some '/' := by
    intro ss hss
    induction ss with
    | nil => exact absurd rfl hss
    | cons s ss ih =>
      rw [List.cons_append, List.intercalate_cons_of_ne_nil (by simp)]
      cases ss with
      | nil => rw [List.nil_append, List.intercalate_singleton, List.append_nil, List.getLast?_concat]
      | cons s' ss => rw [List.getLast?_append, ih (List.cons_ne_nil _ _), Option.some_or]
  have hpath : ['/'].intercalate (segments path) = path.toList := List.intercalate_splitOn '/'
  rw [← hpath, hp]
  exact hjoin front hf

/-- The first segment of an absolute path is empty. -/
theorem segments_of_isAbsolute (h : isAbsolute path = true) : ∃ body, segments path = [] :: body ∧ body ≠ [] := by
  unfold isAbsolute at h
  unfold segments
  cases hp : path.toList with
  | nil => rw [hp] at h; cases h
  | cons c cs =>
    rw [hp, List.head?_cons, beq_iff_eq, Option.some.injEq] at h
    subst h
    refine ⟨cs.splitOn '/', ?_, List.splitOn_ne_nil _ _⟩
    exact List.splitOn_append_cons_self [] cs

/-! ## The names on a path -/

/-- The segments of a path that lead somewhere. -/
def names (path : String) : List String :=
  ((segments path).filter fun s => !isIdle s).map String.ofList

theorem filter_dropIdleEnd (ss : List (List Char)) :
    (dropIdleEnd ss).filter (fun s => !isIdle s) = ss.filter fun s => !isIdle s := by
  unfold dropIdleEnd
  rw [List.filter_reverse]
  have hdrop : ∀ ss : List (List Char),
      (ss.dropWhile isIdle).filter (fun s => !isIdle s) = ss.filter fun s => !isIdle s := by
    intro ss
    induction ss with
    | nil => rfl
    | cons s ss ih =>
      cases hs : isIdle s
      · rw [List.dropWhile_cons_of_neg (by simp [hs])]
      · rw [List.dropWhile_cons_of_pos hs, ih, List.filter_cons_of_neg (by simp [hs])]
  rw [hdrop, List.filter_reverse, List.reverse_reverse]

theorem dropIdleEnd_append (ss : List (List Char)) (h : isIdle segment = false) {trail : List (List Char)}
    (ht : ∀ s ∈ trail, isIdle s = true) : dropIdleEnd (ss ++ segment :: trail) = ss ++ [segment] := by
  unfold dropIdleEnd
  rw [List.reverse_append, List.reverse_cons, List.append_assoc,
    List.dropWhile_append_of_pos fun s hs => ht s (List.mem_reverse.1 hs), List.singleton_append,
    List.dropWhile_cons_of_neg (by simp [h]), List.reverse_cons, List.reverse_reverse]

theorem mem_of_mem_dropIdleEnd {ss : List (List Char)} (h : segment ∈ dropIdleEnd ss) : segment ∈ ss := by
  unfold dropIdleEnd at h
  exact List.mem_reverse.1 ((List.dropWhile_sublist _).subset (List.mem_reverse.1 h))

theorem names_ofSegments {ss : List (List Char)} (h : ∀ s ∈ ss, '/' ∉ s) :
    names (ofSegments ss) = (ss.filter fun s => !isIdle s).map String.ofList := by
  unfold names segments ofSegments
  rw [String.toList_ofList]
  cases ss with
  | nil => rfl
  | cons s ss => rw [List.splitOn_intercalate _ h (List.cons_ne_nil _ _)]

theorem names_slash_append (path : String) : names ("/" ++ path) = names path := by
  unfold names
  rw [← String.empty_append (s := "/"), segments_append_slash]
  rfl

/-! ## Names joined to a folder -/

/-- A name that an entry of a folder can have. -/
structure IsName (n : String) : Prop where
  slash : '/' ∉ n.toList
  idle : isIdle n.toList = false
  up : n ≠ ".."

theorem IsName.ne_empty (h : IsName n) : n ≠ "" := by
  rintro rfl
  exact absurd h.idle (by decide)

theorem IsName.isAbsolute (h : IsName n) : isAbsolute n = false := by
  unfold Path.isAbsolute
  cases hn : n.toList with
  | nil => rfl
  | cons c cs =>
    have hc : c ≠ '/' := fun he => h.slash (by rw [hn, he]; exact List.mem_cons_self)
    simpa using hc

/-- The name of a temporary file is a name. -/
theorem IsName.temporary (h : IsName n) : IsName (n ++ ".tmp") := by
  have hlist : (n ++ ".tmp").toList = n.toList ++ ['.', 't', 'm', 'p'] := String.toList_append
  refine ⟨?_, ?_, ?_⟩
  · rw [hlist, List.mem_append, not_or]
    exact ⟨h.slash, by decide⟩
  · rw [hlist]
    cases n.toList <;> simp [isIdle]
  · intro he
    have := congrArg String.toList he
    rw [hlist] at this
    cases hn : n.toList with
    | nil => rw [hn] at this; cases this
    | cons c cs =>
      have hlen := congrArg List.length this
      rw [hn] at hlen
      simp at hlen

theorem temporary_ne (n : String) : n ++ ".tmp" ≠ n := by
  intro h
  have := congrArg (fun s => s.toList.length) h
  simp [String.toList_append] at this

/-- Whether a path ends in a name, right behind the way to a folder. -/
def EndsIn (path folder n : String) : Prop :=
  ∃ front, segments path = front ++ [n.toList] ∧ (front.filter fun s => !isIdle s).map String.ofList = names folder

/-- A name joined to a folder is the last segment of the path. -/
theorem endsIn_join (h : IsName n) (folder : String) : EndsIn (join folder n) folder n := by
  unfold join
  rw [h.isAbsolute]
  simp only [Bool.false_eq_true, ↓reduceIte]
  split
  · rename_i hf
    rw [Bool.or_eq_true, decide_eq_true_eq, decide_eq_true_eq] at hf
    rcases hf with rfl | hf
    · refine ⟨[], ?_, rfl⟩
      rw [String.empty_append, segments_of_not_mem h.slash, List.nil_append]
    · -- the folder ends in a slash already
      obtain ⟨cs, hcs⟩ := List.getLast?_eq_some_iff.1 hf
      have hfolder : folder = String.ofList cs ++ "/" ++ "" := by
        apply String.toList_injective
        rw [hcs, String.append_empty, String.toList_append, String.toList_ofList]
        rfl
      refine ⟨segments (String.ofList cs), ?_, ?_⟩
      · rw [hfolder, String.append_empty, segments_append_slash, segments_of_not_mem h.slash]
      · unfold names
        rw [hfolder, segments_append_slash, List.filter_append]
        rw [List.map_append]
        exact (List.append_nil _).symm
  · refine ⟨segments folder, ?_, rfl⟩
    rw [segments_append_slash, segments_of_not_mem h.slash]

theorem EndsIn.names_eq (h : EndsIn path folder n) (hn : IsName n) : names path = names folder ++ [n] := by
  obtain ⟨front, hp, hf⟩ := h
  rw [names, hp, List.filter_append, List.filter_cons_of_pos (by simp [hn.idle]), List.filter_nil, List.map_append, hf,
    List.map_singleton, String.ofList_toList]

theorem EndsIn.getLast? (h : EndsIn path folder n) (hn : IsName n) : path.toList.getLast? ≠ some '/' := by
  intro hl
  obtain ⟨cs, hcs⟩ := List.getLast?_eq_some_iff.1 hl
  obtain ⟨front, hf, -⟩ := h
  unfold segments at hf
  rw [hcs, List.splitOn_append_cons_self, List.splitOn_nil] at hf
  have hlast := congrArg List.getLast? hf
  rw [List.getLast?_concat, List.getLast?_concat] at hlast
  have hidle := hn.idle
  rw [← Option.some.inj hlast] at hidle
  cases hidle

/-- The parent of a path leads through all names but the last, whatever stands still behind that. -/
theorem parent?_of_segments {trail : List (List Char)} (hp : segments path = front ++ segment :: trail)
    (hs : isIdle segment = false) (ht : ∀ s ∈ trail, isIdle s = true) :
    ∃ parent, parent? path = some parent ∧
      names parent = (front.filter fun s => !isIdle s).map String.ofList := by
  have hfree : ∀ s ∈ front, '/' ∉ s := by
    intro s hsf
    have hmem : s ∈ segments path := by rw [hp]; exact List.mem_append_left _ hsf
    exact not_mem_of_mem_segments hmem
  unfold parent?
  cases front with
  | nil =>
    rw [List.nil_append] at hp
    have ha : isAbsolute path = false := by
      rw [Bool.eq_false_iff]
      intro ha
      obtain ⟨body, hb, -⟩ := segments_of_isAbsolute ha
      rw [hp] at hb
      cases hb
      cases hs
    have hdot : segment ≠ ['.'] := by rintro rfl; cases hs
    have hdrop : dropIdleEnd (segment :: trail) = [segment] := dropIdleEnd_append [] hs ht
    simp only [hp, ha, Bool.false_eq_true, ↓reduceIte, hdot, hdrop]
    exact ⟨_, rfl, rfl⟩
  | cons first front =>
    rw [List.cons_append] at hp
    have hfree' : ∀ s ∈ dropIdleEnd front, '/' ∉ s := fun s hsf =>
      hfree s (List.mem_cons_of_mem _ (mem_of_mem_dropIdleEnd hsf))
    obtain ⟨x, xs, hx⟩ : ∃ x xs, front ++ [segment] = x :: xs := List.exists_cons_of_ne_nil (by simp)
    have hlast : (x :: xs).dropLast = front := by rw [← hx, List.dropLast_concat]
    have hbody : dropIdleEnd (front ++ segment :: trail) = x :: xs := by
      rw [← hx]
      exact dropIdleEnd_append front hs ht
    simp only [hp, hbody, hlast]
    split
    · rename_i ha
      obtain ⟨body, hb, -⟩ := segments_of_isAbsolute ha
      rw [hp] at hb
      cases hb
      refine ⟨_, rfl, ?_⟩
      rw [names_slash_append, names_ofSegments hfree', filter_dropIdleEnd, List.filter_cons_of_neg (by decide)]
    · split
      · rename_i hdot
        refine ⟨_, rfl, ?_⟩
        rw [names_ofSegments, hdot, List.filter_cons_of_neg (by decide), List.filter_cons_of_neg (by decide),
          filter_dropIdleEnd]
        rintro s (_ | ⟨_, hsf⟩)
        · exact hfree first List.mem_cons_self
        · exact hfree' s hsf
      · have hdrop : dropIdleEnd (first :: (front ++ segment :: trail)) = first :: (x :: xs) := by
          rw [← hx]
          exact dropIdleEnd_append (first :: front) hs ht
        have hlast' : (first :: (x :: xs)).dropLast = first :: front := by rw [List.dropLast_cons_cons, hlast]
        simp only [hdrop, hlast']
        refine ⟨_, rfl, ?_⟩
        rw [names_ofSegments fun s hsf => hfree s (mem_of_mem_dropIdleEnd hsf), filter_dropIdleEnd]

/-- A path leads through all the names of its parent. -/
theorem names_le_of_parent? {parent : String} (h : parent? path = some parent) : names parent <+: names path := by
  have hcut : ∀ {ss : List (List Char)}, ((dropIdleEnd (dropIdleEnd ss).dropLast).filter fun s => !isIdle s) <+:
      ss.filter fun s => !isIdle s := by
    intro ss
    rw [filter_dropIdleEnd, ← filter_dropIdleEnd ss]
    exact (List.dropLast_prefix _).filter _
  have hsub : ∀ {ss : List (List Char)} {s : List Char}, s ∈ dropIdleEnd (dropIdleEnd ss).dropLast → s ∈ ss :=
    fun hs => mem_of_mem_dropIdleEnd ((List.dropLast_sublist _).subset (mem_of_mem_dropIdleEnd hs))
  unfold parent? at h
  split at h
  · cases h
  · rename_i first body hp
    have hfree : ∀ s ∈ first :: body, '/' ∉ s := fun s hs => not_mem_of_mem_segments (hp ▸ hs)
    have hpath : names path = ((first :: body).filter fun s => !isIdle s).map String.ofList := by rw [← hp]; rfl
    split at h
    · rename_i ha
      obtain ⟨body', hb, -⟩ := segments_of_isAbsolute ha
      cases hp.symm.trans hb
      split at h
      · cases h
      · cases h
        rw [names_slash_append, names_ofSegments fun s hs => hfree s (List.mem_cons_of_mem _ (hsub hs)), hpath,
          List.filter_cons_of_neg (by decide)]
        exact hcut.map _
    · split at h
      · rename_i hdot
        split at h
        · cases h
          exact List.nil_prefix
        · cases h
          rw [names_ofSegments, hpath, hdot, List.filter_cons_of_neg (by decide), List.filter_cons_of_neg (by decide)]
          · exact hcut.map _
          · rintro s (_ | ⟨_, hs⟩)
            · exact hfree first List.mem_cons_self
            · exact hfree s (List.mem_cons_of_mem _ (hsub hs))
      · split at h
        · cases h
        · cases h
          rw [names_ofSegments fun s hs => hfree s (hsub hs), hpath]
          exact hcut.map _

/-- All parents of a path lead through a beginning of its names. -/
theorem names_le_of_mem_ancestors {parent : String} (h : parent ∈ ancestors path) : names parent <+: names path := by
  unfold ancestors at h
  generalize path.length + 1 = depth at h
  induction depth generalizing path with
  | zero => cases h
  | succ depth ih =>
    rw [ancestors.go] at h
    rcases List.mem_cons.1 h with rfl | h
    · exact List.prefix_rfl
    · cases hp : parent? path with
      | none => rw [hp] at h; cases h
      | some up =>
        rw [hp] at h
        exact (ih h).trans (names_le_of_parent? hp)

theorem fileName?_join (h : IsName n) (folder : String) : fileName? (join folder n) = some n := by
  obtain ⟨front, hp, -⟩ := endsIn_join h folder
  have hup : n.toList ≠ ['.', '.'] := fun he => h.up (String.toList_injective he)
  unfold fileName?
  rw [hp, List.filter_append, List.filter_cons_of_pos (by simp [h.idle]), List.filter_nil, List.getLast?_concat]
  simp only [hup, ↓reduceIte, String.ofList_toList]

theorem parent?_join (h : IsName n) (folder : String) :
    ∃ parent, parent? (join folder n) = some parent ∧ names parent = names folder := by
  obtain ⟨front, hp, hf⟩ := endsIn_join h folder
  obtain ⟨parent, hparent, hnames⟩ := parent?_of_segments hp h.idle (List.forall_mem_nil _)
  exact ⟨parent, hparent, hnames.trans hf⟩

/-- A path with a name at its end leads to an entry of its parent. -/
theorem names_of_fileName? (h : fileName? path = some n) :
    ∃ parent, parent? path = some parent ∧ IsName n ∧ names path = names parent ++ [n] := by
  unfold fileName? at h
  split at h
  · cases h
  · rename_i segment hlast
    split at h
    · cases h
    · rename_i hup
      cases h
      obtain ⟨before, hfilter⟩ := List.getLast?_eq_some_iff.1 hlast
      obtain ⟨front, back, hp, rfl, hback⟩ := List.filter_eq_append_iff.1 hfilter
      obtain ⟨idle, trail, rfl, hidle, hsegment, htrail⟩ := List.filter_eq_cons_iff.1 hback
      rw [← List.append_assoc] at hp
      have hs : isIdle segment = false := by simpa using hsegment
      have ht : ∀ s ∈ trail, isIdle s = true := by simpa [List.filter_eq_nil_iff] using htrail
      obtain ⟨parent, hparent, hnames⟩ := parent?_of_segments hp hs ht
      refine ⟨parent, hparent, ⟨?_, ?_, fun he => hup ?_⟩, ?_⟩
      · rw [String.toList_ofList]
        exact not_mem_of_mem_segments (hp ▸ List.mem_append_right _ List.mem_cons_self)
      · rwa [String.toList_ofList]
      · rw [← String.toList_ofList (l := segment), he]
        rfl
      · rw [hnames, names, hp, List.filter_append, List.filter_cons_of_pos (by simp [hs]), htrail, List.map_append,
          List.map_singleton]

/-- A path that does not end in a segment that stands still ends in its last name. -/
theorem endsIn_of_names (h : names path = names folder ++ [n])
    (hlast : ∀ s ∈ (segments path).getLast?, isIdle s = false) : EndsIn path folder n := by
  rcases List.eq_nil_or_concat (segments path) with hnil | ⟨front, segment, hp⟩
  · rw [names, hnil] at h
    simp at h
  · rw [List.concat_eq_append] at hp
    have hs : isIdle segment = false := hlast segment (by rw [hp, List.getLast?_concat]; rfl)
    rw [names, hp, List.filter_append, List.filter_cons_of_pos (by simp [hs]), List.filter_nil, List.map_append,
      List.map_singleton] at h
    obtain ⟨hfront, hn⟩ := List.append_inj' h rfl
    refine ⟨front, ?_, hfront⟩
    rw [hp, ← List.singleton_inj.1 hn, String.toList_ofList]

end Path

variable {path parent n : String}

/-- The temporary file lies beside the file. -/
theorem temporaryPath_eq (hn : Path.fileName? path = some n) (hp : Path.parent? path = some parent) :
    temporaryPath path = Path.join parent (n ++ ".tmp") := by
  unfold temporaryPath Path.withFileName
  rw [hn, hp]
  rfl

end ResourceClient
