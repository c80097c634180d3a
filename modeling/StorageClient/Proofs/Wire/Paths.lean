import Mathlib.Data.List.Chain
import StorageClient.Proofs.Text.Trimming
import StorageClient.Proofs.Text.Wrapping
import StorageClient.Wire.Path

/-!
Absolute paths. What a directory name is made into is said twice: by its form, which is the same
after a second time, and by the names in it, which stay in their order. From a file's path both its
name and its directory can be told.
-/

namespace StorageClient.Path

def components (t : Text) : List Text := (Text.pieces '/' t).filter (· ≠ [])

structure Absolute (d : Text) : Prop where
  rooted : d.head? = some '/'
  single : d.IsChain fun a b => ¬ (a = '/' ∧ b = '/')
  first : ∀ c, d.head? = some c → Text.isBlank c = false
  last : ∀ c, d.getLast? = some c → Text.isBlank c = false

/-! ### Squeezing behind a character -/

def squeezeFrom (c : Char) (t : Text) : Text := c :: squeeze (c == '/') t

theorem squeezeFrom_cons (c d : Char) (t : Text) : squeezeFrom c (d :: t) =
    if d = '/' ∧ c = '/' then squeezeFrom c t else c :: squeezeFrom d t := by
  by_cases h : d = '/' ∧ c = '/'
  · simp [squeezeFrom, squeeze, h]
  · have hkept : ¬ (d = '/' ∧ (c == '/') = true) := by simpa using h
    rw [squeezeFrom, squeeze, if_neg hkept, if_neg h, squeezeFrom]

theorem squeezeFrom_cons_of_ne {d : Char} (h : d ≠ '/') (c : Char) (t : Text) :
    squeezeFrom c (d :: t) = c :: squeezeFrom d t := by
  rw [squeezeFrom_cons, if_neg (fun hs => h hs.1)]

theorem normalize_eq (t : Text) : normalize t = squeezeFrom '/' (Text.trim t) := by
  unfold normalize
  split
  · next h => rw [h]; rfl
  · next u h => rw [h, squeezeFrom_cons, if_pos ⟨rfl, rfl⟩]; rfl
  · rfl

theorem getLast?_squeezeFrom (c : Char) (t : Text) :
    (squeezeFrom c t).getLast? = (c :: t).getLast? := by
  induction t generalizing c with
  | nil => rfl
  | cons d t ih =>
    rw [squeezeFrom_cons]
    split
    · next h =>
      obtain ⟨rfl, rfl⟩ := h
      rw [ih, List.getLast?_cons_cons]
    · have hlast : (squeezeFrom d t).getLast? = (d :: t).getLast? := ih d
      rw [squeezeFrom] at hlast ⊢
      rw [List.getLast?_cons_cons, hlast, List.getLast?_cons_cons]

theorem isChain_squeezeFrom (c : Char) (t : Text) :
    (squeezeFrom c t).IsChain fun a b => ¬ (a = '/' ∧ b = '/') := by
  induction t generalizing c with
  | nil => exact .singleton c
  | cons d t ih =>
    rw [squeezeFrom_cons]
    split
    · exact ih c
    · next h =>
      refine List.isChain_cons_cons.2 ⟨?_, ih d⟩
      rintro ⟨rfl, rfl⟩
      exact h ⟨rfl, rfl⟩

theorem squeezeFrom_of_isChain {c : Char} {t : Text}
    (h : (c :: t).IsChain fun a b => ¬ (a = '/' ∧ b = '/')) : squeezeFrom c t = c :: t := by
  induction t generalizing c with
  | nil => rfl
  | cons d t ih =>
    obtain ⟨hapart, hrest⟩ := List.isChain_cons_cons.1 h
    have hkept : ¬ (d = '/' ∧ c = '/') := fun hs => hapart hs.symm
    rw [squeezeFrom_cons, if_neg hkept, ih hrest]

/-! ### The form of a path -/

theorem isBlank_of_getLast?_trim {t : Text} {c : Char} (h : (Text.trim t).getLast? = some c) :
    Text.isBlank c = false :=
  Text.of_getLast?_dropEndWhile h

theorem absolute_normalize (t : Text) : Absolute (normalize t) := by
  have hlast : (normalize t).getLast? = ('/' :: Text.trim t).getLast? := by
    rw [normalize_eq, getLast?_squeezeFrom]
  refine ⟨?_, ?_, ?_, ?_⟩
  · rw [normalize_eq]
    rfl
  · rw [normalize_eq]
    exact isChain_squeezeFrom '/' (Text.trim t)
  · intro c hc
    rw [normalize_eq] at hc
    obtain rfl : '/' = c := Option.some.inj hc
    rfl
  · intro c hc
    rw [hlast] at hc
    cases htrim : Text.trim t with
    | nil =>
      rw [htrim] at hc
      obtain rfl : '/' = c := Option.some.inj hc
      rfl
    | cons d u =>
      rw [htrim, List.getLast?_cons_cons, ← htrim] at hc
      exact isBlank_of_getLast?_trim hc

theorem trim_of_ends {t : Text} (hfirst : ∀ c, t.head? = some c → Text.isBlank c = false)
    (hlast : ∀ c, t.getLast? = some c → Text.isBlank c = false) : Text.trim t = t := by
  have hdrop : t.dropWhile Text.isBlank = t := by
    cases t with
    | nil => rfl
    | cons c t => simp [hfirst c rfl]
  rw [Text.trim, hdrop, Text.dropEndWhile_eq_self hlast]

theorem normalize_of_absolute {d : Text} (h : Absolute d) : normalize d = d := by
  obtain ⟨u, rfl⟩ := List.head?_eq_some_iff.1 h.rooted
  rw [normalize_eq, trim_of_ends h.first h.last, squeezeFrom_cons, if_pos ⟨rfl, rfl⟩]
  exact squeezeFrom_of_isChain h.single

theorem normalize_normalize (t : Text) : normalize (normalize t) = normalize t :=
  normalize_of_absolute (absolute_normalize t)

/-! ### The names in a path -/

theorem pieces_append {s : Text} (h : '/' ∉ s) (t : Text) :
    Text.pieces '/' (s ++ '/' :: t) = s :: Text.pieces '/' t := by
  induction s with
  | nil => simp [Text.pieces]
  | cons c s ih =>
    rw [List.mem_cons, not_or] at h
    simp [Text.pieces, Ne.symm h.1, ih h.2, Text.consHead]

theorem components_append {s : Text} (h : '/' ∉ s) (t : Text) :
    components (s ++ '/' :: t) = if s = [] then components t else s :: components t := by
  rw [components, pieces_append h, List.filter_cons]
  by_cases hs : s = []
  · simp [components, hs]
  · simp [components, hs]

theorem components_of_not_mem {s : Text} (h : '/' ∉ s) :
    components s = if s = [] then [] else [s] := by
  rw [components, Text.pieces_of_not_mem h, List.filter_cons]
  by_cases hs : s = []
  · simp [hs]
  · simp [hs]

theorem squeezeFrom_append {s : Text} (h : '/' ∉ s) (hne : s ≠ []) (c : Char) (t : Text) :
    squeezeFrom c (s ++ '/' :: t) = c :: (s ++ squeezeFrom '/' t) := by
  induction s generalizing c with
  | nil => exact absurd rfl hne
  | cons d s ih =>
    rw [List.mem_cons, not_or] at h
    rw [List.cons_append, squeezeFrom_cons_of_ne (Ne.symm h.1)]
    cases s with
    | nil =>
      have hslash : ¬ ('/' = '/' ∧ d = '/') := fun hs => h.1 hs.2.symm
      rw [List.nil_append, squeezeFrom_cons, if_neg hslash]
      rfl
    | cons e s => rw [ih h.2 (by simp)]; rfl

/-- A text without names is made of slashes. -/
theorem eq_slash_of_components_eq_nil {t : Text} (h : components t = []) : ∀ c ∈ t, c = '/' := by
  intro c hc
  by_contra hslash
  have hmem : c ∈ (Text.pieces '/' t).flatten := by
    rw [Text.flatten_pieces]
    simpa using ⟨hc, hslash⟩
  obtain ⟨s, hs, hcs⟩ := List.mem_flatten.1 hmem
  have hname : s ∈ components t := by
    simpa [components] using ⟨hs, List.ne_nil_of_mem hcs⟩
  rw [h] at hname
  exact absurd hname (List.not_mem_nil)

/-- What stands behind the names of a path: a slash, if the text has names and ends in one. -/
def closing (t : Text) : Text :=
  if components t ≠ [] ∧ t.getLast? = some '/' then ['/'] else []

theorem closing_of_not_mem {t : Text} (h : '/' ∉ t) : closing t = [] := by
  have hlast : t.getLast? ≠ some '/' := fun hlast => h (List.mem_of_getLast? hlast)
  rw [closing, if_neg (fun hc => hlast hc.2)]

theorem closing_of_slashes {t : Text} (h : components t = []) : closing t = [] := by
  rw [closing, if_neg (fun hc => hc.1 h)]

theorem getLast?_append_slash (s : Text) {u : Text} (h : u ≠ []) :
    (s ++ '/' :: u).getLast? = u.getLast? := by
  obtain ⟨c, u, rfl⟩ := List.exists_cons_of_ne_nil h
  rw [List.getLast?_append_of_ne_nil s (by simp), List.getLast?_cons_cons]

theorem closing_append_of_names {s : Text} (hs : '/' ∉ s) {u : Text} (h : components u ≠ []) :
    closing (s ++ '/' :: u) = closing u := by
  have hu : u ≠ [] := by
    rintro rfl
    exact h rfl
  have hnames : components (s ++ '/' :: u) ≠ [] := by
    rw [components_append hs]
    split
    · exact h
    · simp
  have hclosing : ∀ v : Text, components v ≠ [] →
      closing v = if v.getLast? = some '/' then ['/'] else [] := by
    intro v hv
    simp [closing, hv]
  rw [hclosing _ hnames, hclosing u h, getLast?_append_slash s hu]

theorem closing_append_of_slashes {s : Text} (hs : '/' ∉ s) (hne : s ≠ []) {u : Text}
    (h : components u = []) : closing (s ++ '/' :: u) = ['/'] := by
  have hall : ∀ c ∈ '/' :: u, c = '/' := by
    intro c hc
    rcases List.mem_cons.1 hc with rfl | hc
    · rfl
    · exact eq_slash_of_components_eq_nil h c hc
  have hlast : (s ++ '/' :: u).getLast? = some '/' := by
    rw [List.getLast?_append_of_ne_nil s (by simp), List.getLast?_eq_some_getLast (by simp),
      hall _ (List.getLast_mem _)]
  have hnames : components (s ++ '/' :: u) ≠ [] := by
    rw [components_append hs, if_neg hne]
    simp
  rw [closing, if_pos ⟨hnames, hlast⟩]

theorem squeezeFrom_of_not_mem {s : Text} (h : '/' ∉ s) (c : Char) : squeezeFrom c s = c :: s := by
  induction s generalizing c with
  | nil => rfl
  | cons d s ih =>
    rw [List.mem_cons, not_or] at h
    rw [squeezeFrom_cons_of_ne (Ne.symm h.1), ih h.2]

theorem squeezeFrom_slash (t : Text) :
    squeezeFrom '/' t = '/' :: (['/'].intercalate (components t) ++ closing t) := by
  by_cases hslash : '/' ∈ t
  · obtain ⟨s, u, ht, hs⟩ := List.eq_append_cons_of_mem hslash
    have hshorter : u.length < t.length := by
      rw [ht]
      simp
      omega
    have hrest := squeezeFrom_slash u
    rw [ht]
    by_cases hempty : s = []
    · subst hempty
      have hnames : components ('/' :: u) = components u := components_append hs u
      have hclosing : closing ('/' :: u) = closing u := by
        by_cases hu : components u = []
        · rw [closing_of_slashes hu, closing_of_slashes (hnames.trans hu)]
        · exact closing_append_of_names hs hu
      rw [List.nil_append, squeezeFrom_cons, if_pos ⟨rfl, rfl⟩, hrest, hnames, hclosing]
    · have hnames : components (s ++ '/' :: u) = s :: components u := by
        rw [components_append hs, if_neg hempty]
      rw [squeezeFrom_append hs hempty, hrest, hnames]
      by_cases hu : components u = []
      · simp [hu, closing_of_slashes hu, closing_append_of_slashes hs hempty hu]
      · obtain ⟨n, ns, hns⟩ := List.exists_cons_of_ne_nil hu
        rw [closing_append_of_names hs hu, hns, List.intercalate_cons_cons]
        simp
  · rw [squeezeFrom_of_not_mem hslash, components_of_not_mem hslash, closing_of_not_mem hslash]
    by_cases hempty : t = []
    · simp [hempty]
    · simp [hempty]
termination_by t.length

/-! ### Files -/

def parent (d : Text) : Text := if d.getLast? = some '/' then d else d ++ ['/']

theorem file_eq (dir name : Text) : file dir name = parent (normalize dir) ++ name := by
  unfold file parent
  dsimp only
  split
  · rfl
  · simp

theorem exists_parent_eq (d : Text) : ∃ u, parent d = u ++ ['/'] := by
  unfold parent
  split
  · next h =>
    obtain ⟨u, hu⟩ := List.getLast?_eq_some_iff.1 h
    exact ⟨u, hu⟩
  · exact ⟨d, rfl⟩

theorem parent_cons_cons (c d : Char) (t : Text) : parent (c :: d :: t) = c :: parent (d :: t) := by
  unfold parent
  rw [List.getLast?_cons_cons]
  split
  · rfl
  · rfl

theorem parent_parent (d : Text) : parent (parent d) = parent d := by
  obtain ⟨u, hu⟩ := exists_parent_eq d
  rw [hu, parent, if_pos List.getLast?_concat]

theorem squeezeFrom_append_slash (c : Char) (t : Text) :
    squeezeFrom c (t ++ ['/']) = parent (squeezeFrom c t) := by
  induction t generalizing c with
  | nil =>
    rw [List.nil_append, squeezeFrom_cons]
    by_cases hc : c = '/'
    · subst hc
      rfl
    · simp [hc, squeezeFrom, squeeze, parent]
  | cons d t ih =>
    rw [List.cons_append, squeezeFrom_cons, squeezeFrom_cons]
    split
    · exact ih c
    · rw [ih d, squeezeFrom, parent_cons_cons]

theorem trim_append_slash {t : Text} (h : ∀ c, t.getLast? = some c → Text.isBlank c = false) :
    Text.trim (t ++ ['/']) = Text.trim t ++ ['/'] := by
  have hdrop : (t ++ ['/']).dropWhile Text.isBlank = t.dropWhile Text.isBlank ++ ['/'] := by
    have hslash : Text.isBlank '/' = false := rfl
    rw [List.dropWhile_append]
    split
    · next hempty => simp [List.isEmpty_iff.1 hempty, hslash]
    · rfl
  have hlast : ∀ c, (t.dropWhile Text.isBlank).getLast? = some c → Text.isBlank c = false := by
    intro c hc
    refine h c ?_
    have hsuffix := List.dropWhile_suffix (p := Text.isBlank) (l := t)
    obtain ⟨v, hv⟩ := hsuffix
    rw [← hv, List.getLast?_append, hc, Option.some_or]
  have hslash : ∀ c, (t.dropWhile Text.isBlank ++ ['/']).getLast? = some c →
      Text.isBlank c = false := by
    intro c hc
    obtain rfl : '/' = c := by simpa using hc
    rfl
  rw [Text.trim, Text.trim, hdrop, Text.dropEndWhile_eq_self hlast,
    Text.dropEndWhile_eq_self hslash]

theorem file_normalize (dir name : Text) : file (normalize dir) name = file dir name := by
  rw [file_eq, file_eq, normalize_normalize]

theorem file_append_slash {dir : Text}
    (h : ∀ c, dir.getLast? = some c → Text.isBlank c = false) (name : Text) :
    file (dir ++ ['/']) name = file dir name := by
  have hparent : parent (normalize (dir ++ ['/'])) = parent (normalize dir) := by
    rw [normalize_eq, trim_append_slash h, squeezeFrom_append_slash, parent_parent, normalize_eq]
  rw [file_eq, file_eq, hparent]

theorem takeWhile_reverse_name {name : Text} (h : '/' ∉ name) (u : Text) :
    (u ++ '/' :: name).reverse.takeWhile (· ≠ '/') = name.reverse := by
  have hname : ∀ c ∈ name.reverse, decide (c ≠ '/') = true := by
    intro c hc
    rw [decide_eq_true_eq]
    rintro rfl
    exact h (List.mem_reverse.1 hc)
  have hreverse : (u ++ '/' :: name).reverse = name.reverse ++ '/' :: u.reverse := by simp
  rw [hreverse, List.takeWhile_append_of_pos hname]
  simp

/-- A path is cut at its last slash in one way. -/
theorem eq_of_append_name {u v name name' : Text} (h : '/' ∉ name) (h' : '/' ∉ name')
    (heq : u ++ '/' :: name = v ++ '/' :: name') : u = v ∧ name = name' := by
  have hreverse : name.reverse = name'.reverse := by
    rw [← takeWhile_reverse_name h u, heq, takeWhile_reverse_name h' v]
  obtain rfl : name = name' := List.reverse_injective hreverse
  exact ⟨List.append_cancel_right heq, rfl⟩

def SameDirectory (d e : Text) : Prop := d = e ∨ d = e ++ ['/'] ∨ e = d ++ ['/']

theorem sameDirectory_of_parent_eq {d e : Text} (h : parent d = parent e) : SameDirectory d e := by
  unfold parent at h
  split at h
  · split at h
    · exact .inl h
    · exact .inr (.inl h)
  · split at h
    · exact .inr (.inr h.symm)
    · exact .inl (List.append_cancel_right h)

theorem of_file_eq {dir dir' name name' : Text} (h : '/' ∉ name) (h' : '/' ∉ name')
    (heq : file dir name = file dir' name') :
    name = name' ∧ SameDirectory (normalize dir) (normalize dir') := by
  obtain ⟨u, hu⟩ := exists_parent_eq (normalize dir)
  obtain ⟨v, hv⟩ := exists_parent_eq (normalize dir')
  rw [file_eq, file_eq, hu, hv, List.append_assoc, List.append_assoc] at heq
  obtain ⟨rfl, hname⟩ := eq_of_append_name h h' heq
  exact ⟨hname, sameDirectory_of_parent_eq (hu.trans hv.symm)⟩

/-- A directory name is made into an absolute path of the same names, in their order; it ends in a
slash exactly if the name has a component and ends in one, and is made into itself a second time.
So a file's path does not depend on whether its directory was already made absolute or has a slash
behind it, and both its name and its directory can be told from it. -/
theorem normalize_components (p : Text) :
    Absolute (normalize p) ∧
      normalize p = '/' :: (['/'].intercalate (components (Text.trim p)) ++
        if components (Text.trim p) ≠ [] ∧ (Text.trim p).getLast? = some '/' then ['/'] else []) ∧
      normalize (normalize p) = normalize p ∧
      ∀ dir name, file (normalize dir) name = file dir name ∧
        ((∀ c, dir.getLast? = some c → Text.isBlank c = false) →
          file (dir ++ ['/']) name = file dir name) ∧
        ∀ dir' name', '/' ∉ name → '/' ∉ name' → file dir name = file dir' name' →
          name = name' ∧ SameDirectory (normalize dir) (normalize dir') := by
  refine ⟨absolute_normalize p, ?_, normalize_normalize p, fun dir name =>
    ⟨file_normalize dir name, fun h => file_append_slash h name, fun dir' name' => of_file_eq⟩⟩
  rw [normalize_eq]
  exact squeezeFrom_slash (Text.trim p)

/-- A directory with a blank in front, a name of its own between slashes and one at its end. -/
theorem normalize_components_docs :
    normalize " //a b///c/ ".toList = "/a b/c/".toList ∧
      (∀ c, " docs".toList.getLast? = some c → Text.isBlank c = false) ∧
      file (" docs".toList ++ ['/']) "n".toList = file " docs".toList "n".toList ∧
      '/' ∉ "n".toList ∧ file "docs/".toList "n".toList = file " docs".toList "n".toList ∧
      SameDirectory (normalize "docs/".toList) (normalize " docs".toList) := by
  have hblank : ∀ c, " docs".toList.getLast? = some c → Text.isBlank c = false := by
    intro c hc
    obtain rfl : 's' = c := Option.some.inj hc
    rfl
  have hname : '/' ∉ "n".toList := by decide
  have hfile : file "docs/".toList "n".toList = file " docs".toList "n".toList := by decide
  have hform := (normalize_components " //a b///c/ ".toList).2.1
  have hjoin := (normalize_components []).2.2.2
  refine ⟨hform.trans (by decide), hblank, (hjoin _ _).2.1 hblank, hname, hfile, ?_⟩
  exact ((hjoin _ _).2.2 _ _ hname hname hfile).2

end StorageClient.Path
