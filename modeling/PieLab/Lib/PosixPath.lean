import Mathlib.Data.List.Basic

/-
  POSIX paths — a library

  A path is a list of characters; its segments are what stands between the
  slashes. Reading a path moves a location, which is the list of names from the
  root: an empty segment and `.` stay, `..` goes up one name (and stays at the
  root), any other segment goes down. `normalize` and `join` are those of the
  POSIX path module of Node.

  What is proved:
    1. `walk_eq` — a walk is a climb followed by a descent: what a list of
       segments does to a location is two data, how far it climbs (`ups`) and
       the names it then goes down.
    2. `locate_normalize`, `locate_join_concat` — normalizing a path does not
       change where it leads, and a joined path leads where its parts lead one after
       another.
    3. `walk_inside_iff` — when a walk from a location ends strictly below it.
-/

namespace PieLab.Lib.Posix

/-- The segments of a path. -/
def segments (path : List Char) : List (List Char) := path.splitOn '/'

def isAbsolute (path : List Char) : Bool := path.head? == some '/'

/-! ## Locations -/

/-- One segment read at a location. -/
def move (loc : List (List Char)) (seg : List Char) : List (List Char) :=
  if seg = [] ∨ seg = ['.'] then loc
  else if seg = ['.', '.'] then loc.dropLast
  else loc ++ [seg]

def walk (loc segs : List (List Char)) : List (List Char) := segs.foldl move loc

@[simp] theorem walk_nil (loc : List (List Char)) : walk loc [] = loc := rfl

@[simp] theorem walk_cons (loc : List (List Char)) (seg : List Char) (segs : List (List Char)) :
    walk loc (seg :: segs) = walk (move loc seg) segs := rfl

theorem walk_append (loc segs segs' : List (List Char)) :
    walk loc (segs ++ segs') = walk (walk loc segs) segs' := List.foldl_append

/-- Where a path leads, read at the working directory. -/
def locate (cwd : List (List Char)) (path : List Char) : List (List Char) :=
  walk (if isAbsolute path then [] else cwd) (segments path)

/-- `p` stands strictly below `base`. -/
def Inside (base p : List (List Char)) : Prop := base <+: p ∧ base.length < p.length

instance (base p : List (List Char)) : Decidable (Inside base p) :=
  inferInstanceAs (Decidable (_ ∧ _))

theorem inside_append {base rest : List (List Char)} (h : rest ≠ []) :
    Inside base (base ++ rest) := by
  refine ⟨List.prefix_append base rest, ?_⟩
  have : 0 < rest.length := List.length_pos_iff.mpr h
  rw [List.length_append]
  omega

theorem Inside.append {base p : List (List Char)} (h : Inside base p) (rest : List (List Char)) :
    Inside base (p ++ rest) := by
  refine ⟨h.1.trans (List.prefix_append p rest), ?_⟩
  have := h.2
  rw [List.length_append]
  omega

/-! ## Climbs -/

/-- What a list of segments does: climb `ups` names, then go down `names`. -/
structure Climb where
  ups : Nat
  names : List (List Char)
  deriving DecidableEq, Repr

/-- One more segment. At the root (`above = false`) a climb that has used up its
names stays; elsewhere it goes on. -/
def Climb.move (above : Bool) (c : Climb) (seg : List Char) : Climb :=
  if seg = [] ∨ seg = ['.'] then c
  else if seg = ['.', '.'] then
    match c.names with
    | [] => if above then { c with ups := c.ups + 1 } else c
    | _ :: _ => { c with names := c.names.dropLast }
  else { c with names := c.names ++ [seg] }

def climbFrom (above : Bool) (c : Climb) (segs : List (List Char)) : Climb :=
  segs.foldl (Climb.move above) c

/-- The climb of a list of segments. -/
def climb (above : Bool) (segs : List (List Char)) : Climb :=
  climbFrom above { ups := 0, names := [] } segs

/-- Where a climb leads from a location. -/
def Climb.apply (c : Climb) (loc : List (List Char)) : List (List Char) :=
  loc.take (loc.length - c.ups) ++ c.names

theorem Climb.apply_move (c : Climb) (loc : List (List Char)) (seg : List Char) :
    (c.move true seg).apply loc = Posix.move (c.apply loc) seg := by
  unfold Climb.move Posix.move
  by_cases h0 : seg = [] ∨ seg = ['.']
  · simp [h0]
  · simp only [h0, if_false]
    by_cases hup : seg = ['.', '.']
    · simp only [hup, if_true]
      obtain ⟨ups, names⟩ := c
      cases names with
      | nil =>
        show loc.take (loc.length - (ups + 1)) ++ [] = (loc.take (loc.length - ups) ++ []).dropLast
        rw [List.append_nil, List.append_nil, List.dropLast_eq_take, List.take_take,
          List.length_take]
        congr 1
        omega
      | cons n ns =>
        show loc.take (loc.length - ups) ++ (n :: ns).dropLast =
          (loc.take (loc.length - ups) ++ (n :: ns)).dropLast
        rw [List.dropLast_append_of_ne_nil (by simp)]
    · simp only [hup, if_false]
      show loc.take (loc.length - c.ups) ++ (c.names ++ [seg]) = _
      rw [← List.append_assoc]
      rfl

theorem climbFrom_apply (c : Climb) (loc segs : List (List Char)) :
    (climbFrom true c segs).apply loc = walk (c.apply loc) segs := by
  induction segs generalizing c with
  | nil => rfl
  | cons seg segs ih =>
    show (climbFrom true (c.move true seg) segs).apply loc = _
    rw [ih, Climb.apply_move]
    rfl

/-- A walk is a climb followed by a descent. -/
theorem walk_eq (loc segs : List (List Char)) : walk loc segs = (climb true segs).apply loc := by
  have h := climbFrom_apply { ups := 0, names := [] } loc segs
  rw [show ({ ups := 0, names := [] } : Climb).apply loc = loc by simp [Climb.apply]] at h
  exact h.symm

theorem walk_root (segs : List (List Char)) : walk [] segs = (climb false segs).names := by
  have h : ∀ c : Climb, walk c.names segs = (climbFrom false c segs).names := by
    induction segs with
    | nil => intro c; rfl
    | cons seg segs ih =>
      intro c
      show walk (move c.names seg) segs = (climbFrom false (c.move false seg) segs).names
      rw [← ih]
      congr 1
      unfold move Climb.move
      by_cases h0 : seg = [] ∨ seg = ['.']
      · simp [h0]
      · by_cases hup : seg = ['.', '.']
        · obtain ⟨ups, names⟩ := c
          cases names <;> simp [hup]
        · simp [h0, hup]
  exact h { ups := 0, names := [] }

theorem climb_root_ups (segs : List (List Char)) : (climb false segs).ups = 0 := by
  have h : ∀ c : Climb, (climbFrom false c segs).ups = c.ups := by
    induction segs with
    | nil => intro c; rfl
    | cons seg segs ih =>
      intro c
      show (climbFrom false (c.move false seg) segs).ups = c.ups
      rw [ih]
      unfold Climb.move
      by_cases h0 : seg = [] ∨ seg = ['.']
      · simp [h0]
      · by_cases hup : seg = ['.', '.']
        · obtain ⟨ups, names⟩ := c
          cases names <;> simp [hup]
        · simp [h0, hup]
  exact h { ups := 0, names := [] }

theorem Climb.move_up (c : Climb) :
    c.move true ['.', '.'] =
      { ups := c.ups + (1 - c.names.length), names := c.names.dropLast } := by
  obtain ⟨ups, names⟩ := c
  cases names <;> simp [Climb.move]

/-! ## Names -/

/-- A segment that names a directory entry. -/
structure IsName (seg : List Char) : Prop where
  ne_nil : seg ≠ []
  ne_dot : seg ≠ ['.']
  ne_up : seg ≠ ['.', '.']
  no_slash : '/' ∉ seg

variable {seg path : List Char} {segs : List (List Char)}

theorem IsName.move (h : IsName seg) (loc : List (List Char)) : move loc seg = loc ++ [seg] := by
  simp [Posix.move, h.ne_nil, h.ne_dot, h.ne_up]

theorem IsName.climb_move (h : IsName seg) (above : Bool) (c : Climb) :
    c.move above seg = { c with names := c.names ++ [seg] } := by
  simp [Climb.move, h.ne_nil, h.ne_dot, h.ne_up]

theorem walk_names {names : List (List Char)} (h : ∀ n ∈ names, IsName n)
    (loc : List (List Char)) : walk loc names = loc ++ names := by
  induction names generalizing loc with
  | nil => simp
  | cons n ns ih =>
    rw [walk_cons, (h n (by simp)).move, ih fun m hm => h m (by simp [hm])]
    simp

theorem climbFrom_names {names : List (List Char)} (h : ∀ n ∈ names, IsName n) (above : Bool)
    (c : Climb) : climbFrom above c names = { c with names := c.names ++ names } := by
  induction names generalizing c with
  | nil => simp [climbFrom]
  | cons n ns ih =>
    show climbFrom above (c.move above n) ns = _
    rw [(h n (by simp)).climb_move, ih fun m hm => h m (by simp [hm])]
    simp

theorem climbFrom_ups (n k : Nat) :
    climbFrom true { ups := k, names := [] } (List.replicate n ['.', '.']) =
      { ups := k + n, names := [] } := by
  induction n generalizing k with
  | zero => rfl
  | succ n ih =>
    show climbFrom true (Climb.move true { ups := k, names := [] } ['.', '.'])
      (List.replicate n ['.', '.']) = _
    rw [Climb.move_up]
    show climbFrom true { ups := k + 1, names := [] } (List.replicate n ['.', '.']) = _
    rw [ih, Climb.mk.injEq]
    exact ⟨by omega, rfl⟩

theorem isName_of_mem_climb (above : Bool) (h : ∀ seg ∈ segs, '/' ∉ seg) :
    ∀ n ∈ (climb above segs).names, IsName n := by
  have key : ∀ c : Climb, (∀ n ∈ c.names, IsName n) →
      ∀ n ∈ (climbFrom above c segs).names, IsName n := by
    induction segs with
    | nil => exact fun c hc => hc
    | cons seg segs ih =>
      intro c hc
      apply ih (fun seg' h' => h seg' (by simp [h'])) (c.move above seg)
      intro n hn
      unfold Climb.move at hn
      split at hn
      · exact hc n hn
      · rename_i h0
        split at hn
        · split at hn
          · split at hn <;> exact hc n hn
          · exact hc n ((List.dropLast_sublist _).subset hn)
        · rename_i hup
          rcases List.mem_append.mp hn with hn | hn
          · exact hc n hn
          · rw [List.mem_singleton.mp hn]
            exact ⟨fun e => h0 (Or.inl e), fun e => h0 (Or.inr e), hup, h seg (by simp)⟩
  exact key { ups := 0, names := [] } (by simp)

theorem slash_not_mem_segments {path : List Char} : ∀ seg ∈ segments path, '/' ∉ seg := by
  unfold segments
  induction path with
  | nil => simp
  | cons c cs ih =>
    intro seg hseg
    rw [List.splitOn_cons_eq_if_modifyHead] at hseg
    split at hseg
    · rcases List.mem_cons.mp hseg with rfl | hseg
      · simp
      · exact ih seg hseg
    · rename_i hc
      cases hs : cs.splitOn '/' with
      | nil => exact absurd hs (List.splitOn_ne_nil _ _)
      | cons first rest =>
        rw [hs, List.modifyHead_cons] at hseg
        rcases List.mem_cons.mp hseg with rfl | hseg
        · have hfirst := ih first (by rw [hs]; simp)
          have hc' : '/' ≠ c := fun e => by simp [← e] at hc
          simp [hc', hfirst]
        · exact ih seg (by rw [hs]; simp [hseg])

/-! ## Normalizing and joining -/

/-- The segments of a climb written out. -/
def Climb.segments (c : Climb) : List (List Char) :=
  List.replicate c.ups ['.', '.'] ++ c.names

/-- The path without `.`, `..` and empty segments, as far as they cancel. -/
def normalizeString (path : List Char) (allowAboveRoot : Bool) : List Char :=
  ['/'].intercalate (climb allowAboveRoot (segments path)).segments

/-- Put back the leading and the trailing separator. -/
def withSeparators (isAbsolute trailingSeparator : Bool) (normal : List Char) : List Char :=
  if normal = [] then
    if isAbsolute then ['/'] else if trailingSeparator then ['.', '/'] else ['.']
  else
    let normal := if trailingSeparator then normal ++ ['/'] else normal
    if isAbsolute then '/' :: normal else normal

def normalize (path : List Char) : List Char :=
  if path = [] then ['.']
  else withSeparators (isAbsolute path) (path.getLast? == some '/')
    (normalizeString path (!isAbsolute path))

/-- Join the parts that are not empty, and normalize. -/
def join (parts : List (List Char)) : List Char :=
  normalize (['/'].intercalate (parts.filter (· ≠ [])))

theorem segments_append_slash (p q : List Char) :
    segments (p ++ '/' :: q) = segments p ++ segments q :=
  List.splitOn_append_cons_self p q

theorem segments_intercalate (h : ∀ seg ∈ segs, '/' ∉ seg) (hne : segs ≠ []) :
    segments (['/'].intercalate segs) = segs :=
  List.splitOn_intercalate '/' h hne

/-- A segment that moves nowhere. -/
def IsStill (seg : List Char) : Prop := seg = [] ∨ seg = ['.']

theorem walk_still {segs : List (List Char)} (h : ∀ seg ∈ segs, IsStill seg)
    (loc : List (List Char)) : walk loc segs = loc := by
  induction segs with
  | nil => rfl
  | cons seg segs ih =>
    have hseg : move loc seg = loc := if_pos (h seg (by simp))
    rw [walk_cons, hseg]
    exact ih fun s hs => h s (by simp [hs])

theorem climbFrom_still (h : ∀ seg ∈ segs, IsStill seg) (above : Bool) (c : Climb) :
    climbFrom above c segs = c := by
  induction segs with
  | nil => rfl
  | cons seg segs ih =>
    have hseg : c.move above seg = c := if_pos (h seg (by simp))
    show climbFrom above (c.move above seg) segs = c
    rw [hseg]
    exact ih fun s hs => h s (by simp [hs])

theorem isStill_of_trailing {post : List (List Char)} (h : post = [] ∨ post = [[]]) :
    ∀ seg ∈ post, IsStill seg := by
  rcases h with rfl | rfl <;> simp [IsStill]

theorem segments_withSeparators (hslash : ∀ seg ∈ segs, '/' ∉ seg) (hne : ∀ seg ∈ segs, seg ≠ [])
    (absolute trailingSeparator : Bool) :
    ∃ pre post, (∀ seg ∈ pre, IsStill seg) ∧ (post = [] ∨ post = [[]]) ∧
      segments (withSeparators absolute trailingSeparator (['/'].intercalate segs)) =
        pre ++ segs ++ post ∧
      (absolute = false → pre = [] ∨ segs = []) ∧
      isAbsolute (withSeparators absolute trailingSeparator (['/'].intercalate segs)) =
        absolute := by
  cases segs with
  | nil =>
    cases absolute with
    | true => exact ⟨[[], []], [], by simp [IsStill], .inl rfl, rfl, nofun, rfl⟩
    | false =>
      cases trailingSeparator with
      | true => exact ⟨[['.'], []], [], by simp [IsStill], .inl rfl, rfl, fun _ => .inr rfl, rfl⟩
      | false => exact ⟨[['.']], [], by simp [IsStill], .inl rfl, rfl, fun _ => .inr rfl, rfl⟩
  | cons seg segs =>
    obtain ⟨c, cs, rfl⟩ := List.exists_cons_of_ne_nil (hne seg (by simp))
    have hc : c ≠ '/' := fun e => hslash (c :: cs) (by simp) (by simp [e])
    have hsplit := segments_intercalate hslash (by simp)
    obtain ⟨tail, htail⟩ : ∃ tail, ['/'].intercalate ((c :: cs) :: segs) = c :: tail := by
      cases segs <;> exact ⟨_, rfl⟩
    rw [htail] at hsplit ⊢
    -- the text starts with the first name, which is no slash
    have hrel : isAbsolute (c :: tail) = false := by simp [isAbsolute, hc]
    have hslashes : segments ((c :: tail) ++ ['/']) = ((c :: cs) :: segs) ++ [[]] := by
      rw [segments_append_slash, hsplit]
      rfl
    cases absolute with
    | true =>
      cases trailingSeparator with
      | true =>
        refine ⟨[[]], [[]], by simp [IsStill], .inr rfl, ?_, nofun, rfl⟩
        show segments ([] ++ '/' :: ((c :: tail) ++ ['/'])) = _
        rw [segments_append_slash, hslashes]
        rfl
      | false =>
        refine ⟨[[]], [], by simp [IsStill], .inl rfl, ?_, nofun, rfl⟩
        show segments ([] ++ '/' :: (c :: tail)) = _
        rw [segments_append_slash, hsplit]
        simp [segments]
    | false =>
      cases trailingSeparator with
      | true => exact ⟨[], [[]], by simp, .inr rfl, hslashes, fun _ => .inl rfl, hrel⟩
      | false =>
        exact ⟨[], [], by simp, .inl rfl, by rw [List.append_nil]; exact hsplit,
          fun _ => .inl rfl, hrel⟩

theorem Climb.segments_ne_nil (above : Bool) (h : ∀ seg ∈ segs, '/' ∉ seg) :
    ∀ seg ∈ (climb above segs).segments, '/' ∉ seg ∧ seg ≠ [] := by
  intro seg hseg
  rcases List.mem_append.mp hseg with hseg | hseg
  · rw [List.eq_of_mem_replicate hseg]
    decide
  · have hname := isName_of_mem_climb above h seg hseg
    exact ⟨hname.no_slash, hname.ne_nil⟩

theorem segments_normalize (path : List Char) :
    ∃ pre post, (∀ seg ∈ pre, IsStill seg) ∧ (post = [] ∨ post = [[]]) ∧
      segments (normalize path) =
        pre ++ (climb (!isAbsolute path) (segments path)).segments ++ post ∧
      (isAbsolute path = false →
        pre = [] ∨ (climb (!isAbsolute path) (segments path)).segments = []) ∧
      isAbsolute (normalize path) = isAbsolute path := by
  unfold normalize normalizeString
  by_cases hpath : path = []
  · subst hpath
    exact ⟨[['.']], [], by simp [IsStill], .inl rfl, rfl, fun _ => .inr rfl, rfl⟩
  · simp only [hpath, if_false]
    have h := Climb.segments_ne_nil (!isAbsolute path) (@slash_not_mem_segments path)
    exact segments_withSeparators (fun seg hseg => (h seg hseg).1)
      (fun seg hseg => (h seg hseg).2) _ _

theorem withSeparators_ne_nil (absolute trailingSeparator : Bool) (normal : List Char) :
    withSeparators absolute trailingSeparator normal ≠ [] := by
  unfold withSeparators
  by_cases h : normal = []
  · cases absolute <;> cases trailingSeparator <;> simp [h]
  · cases absolute <;> cases trailingSeparator <;> simp [h]

theorem normalize_ne_nil (path : List Char) : normalize path ≠ [] := by
  unfold normalize
  split
  · simp
  · exact withSeparators_ne_nil _ _ _

theorem isAbsolute_normalize (path : List Char) :
    isAbsolute (normalize path) = isAbsolute path := by
  obtain ⟨pre, post, hpre, hpost, hsegs, -, habs⟩ := segments_normalize path
  exact habs

theorem climb_normalize (h : isAbsolute path = false) :
    climb true (segments (normalize path)) = climb true (segments path) := by
  obtain ⟨pre, post, hpre, hpost, hsegs, -, -⟩ := segments_normalize path
  rw [h, Bool.not_false] at hsegs
  have hnames := isName_of_mem_climb true (@slash_not_mem_segments path)
  rw [hsegs]
  show List.foldl _ _ (pre ++ (List.replicate _ _ ++ _) ++ post) = _
  rw [List.foldl_append, List.foldl_append, List.foldl_append]
  show climbFrom true (climbFrom true (climbFrom true (climbFrom true _ pre) _) _) post = _
  rw [climbFrom_still (isStill_of_trailing hpost), climbFrom_still hpre, climbFrom_ups,
    climbFrom_names hnames]
  simp

/-- Normalizing does not change where a path leads. -/
theorem locate_normalize (cwd : List (List Char)) (path : List Char) :
    locate cwd (normalize path) = locate cwd path := by
  unfold locate
  rw [isAbsolute_normalize]
  cases habs : isAbsolute path with
  | false => simp only [Bool.false_eq_true, if_false, walk_eq, climb_normalize habs]
  | true =>
    obtain ⟨pre, post, hpre, hpost, hsegs, -, -⟩ := segments_normalize path
    have hnames := isName_of_mem_climb false (@slash_not_mem_segments path)
    rw [habs, Bool.not_true, Climb.segments, climb_root_ups, List.replicate_zero,
      List.nil_append] at hsegs
    rw [if_pos rfl, hsegs, walk_append, walk_append, walk_still (isStill_of_trailing hpost),
      walk_still hpre,
      walk_names hnames, walk_root, List.nil_append]

theorem head?_segments (h : '/' ∉ seg) :
    (segments path).head? = some seg ↔ path = seg ∨ ∃ rest, path = seg ++ '/' :: rest := by
  constructor
  · intro hhead
    have hpath : ['/'].intercalate (segments path) = path := List.intercalate_splitOn '/'
    cases hsegs : segments path with
    | nil => rw [hsegs] at hhead; cases hhead
    | cons first rest =>
      rw [hsegs, List.head?_cons, Option.some.injEq] at hhead
      subst hhead
      rw [hsegs] at hpath
      cases rest with
      | nil => exact .inl (by rw [← hpath]; simp [List.intercalate])
      | cons second rest =>
        exact .inr ⟨['/'].intercalate (second :: rest), by rw [← hpath]; simp [List.intercalate]⟩
  · intro hpath
    rcases hpath with rfl | ⟨rest, rfl⟩
    · rw [segments, List.splitOn_eq_singleton h]
      rfl
    · rw [segments_append_slash, segments, List.splitOn_eq_singleton h]
      rfl

theorem head?_segments_absolute (h : isAbsolute path = true) : (segments path).head? = some [] := by
  rw [head?_segments (by simp)]
  cases path with
  | nil => cases h
  | cons c rest =>
    have hc : c = '/' := by simpa [isAbsolute] using h
    exact .inr ⟨rest, by rw [hc]; rfl⟩

theorem head?_segments_normalize (h : IsName seg) :
    (segments (normalize path)).head? = some seg ↔
      isAbsolute path = false ∧ (climb true (segments path)).segments.head? = some seg := by
  obtain ⟨pre, post, hpre, hpost, hsegs, hrel, habs⟩ := segments_normalize path
  cases hpath : isAbsolute path with
  | true =>
    rw [hpath] at habs
    rw [head?_segments_absolute habs]
    simp [Ne.symm h.ne_nil]
  | false =>
    rw [hpath, Bool.not_false] at hsegs hrel
    have hnot : ∀ still : List (List Char), (∀ s ∈ still, IsStill s) → still.head? ≠ some seg := by
      intro still hstill hhead
      rcases hstill seg (List.mem_of_mem_head? hhead) with e | e
      · exact h.ne_nil e
      · exact h.ne_dot e
    rw [hsegs]
    cases hc : (climb true (segments path)).segments with
    | nil =>
      have hall : ∀ s ∈ pre ++ post, IsStill s := by
        intro s hs
        rcases List.mem_append.mp hs with hs | hs
        · exact hpre s hs
        · exact isStill_of_trailing hpost s hs
      have hhead := hnot _ hall
      rw [List.append_nil]
      simp only [hhead, List.head?_nil, reduceCtorEq, and_false]
    | cons first rest =>
      rcases hrel rfl with rfl | hnil
      · simp
      · rw [hc] at hnil; cases hnil

theorem normalize_ne_double_slash (path : List Char) (h : IsName seg) (rest : List Char) :
    normalize path ≠ seg ++ '/' :: '/' :: rest := by
  intro e
  have hsplit : segments (normalize path) = seg :: [] :: segments rest := by
    have hseg : segments seg = [seg] := List.splitOn_eq_singleton h.no_slash
    have hrest : segments ('/' :: rest) = [] :: segments rest := segments_append_slash [] rest
    rw [e, segments_append_slash, hseg, hrest]
    rfl
  have hhead : (segments (normalize path)).head? = some seg := by rw [hsplit]; rfl
  obtain ⟨hpath, hfirst⟩ := (head?_segments_normalize h).mp hhead
  obtain ⟨pre, post, -, hpost, hsegs, hrel, -⟩ := segments_normalize path
  rw [hpath, Bool.not_false] at hsegs hrel
  have hnames := Climb.segments_ne_nil true (@slash_not_mem_segments path)
  cases hc : (climb true (segments path)).segments with
  | nil => rw [hc] at hfirst; cases hfirst
  | cons first names =>
    rcases hrel rfl with rfl | hnil
    · rw [hsplit, hc, List.nil_append, List.cons_append, List.cons.injEq] at hsegs
      cases names with
      | cons second names =>
        rw [List.cons_append, List.cons.injEq] at hsegs
        exact (hnames second (by rw [hc]; simp)).2 hsegs.2.1.symm
      | nil =>
        -- only the trailing separator is left, and more than that follows
        have hne : segments rest ≠ [] := List.splitOn_ne_nil _ _
        rcases hpost with rfl | rfl
        · cases hsegs.2
        · rw [List.nil_append, List.cons.injEq] at hsegs
          exact hne hsegs.2.2
    · rw [hc] at hnil; cases hnil

theorem segments_intercalate_cons (first : List Char) (rest : List (List Char)) :
    segments (['/'].intercalate (first :: rest)) = segments first ++ rest.flatMap segments := by
  induction rest generalizing first with
  | nil => simp [List.intercalate]
  | cons second rest ih =>
    have e : ['/'].intercalate (first :: second :: rest) =
        first ++ '/' :: ['/'].intercalate (second :: rest) := by
      simp [List.intercalate]
    rw [e, segments_append_slash, ih, List.flatMap_cons]

theorem isAbsolute_intercalate_cons {first : List Char} (hne : first ≠ [])
    (rest : List (List Char)) :
    isAbsolute (['/'].intercalate (first :: rest)) = isAbsolute first := by
  obtain ⟨c, cs, rfl⟩ := List.exists_cons_of_ne_nil hne
  cases rest <;> rfl

theorem walk_flatMap_filter (loc : List (List Char)) (parts : List (List Char)) :
    walk loc ((parts.filter (· ≠ [])).flatMap segments) = walk loc (parts.flatMap segments) := by
  induction parts generalizing loc with
  | nil => rfl
  | cons part parts ih =>
    by_cases h : part = []
    · subst h
      rw [List.flatMap_cons, walk_append, @walk_still (segments []) (by simp [segments, IsStill]),
        List.filter_cons_of_neg (by simp), ih]
    · rw [List.filter_cons_of_pos (by simpa using h), List.flatMap_cons, List.flatMap_cons,
        walk_append, walk_append, ih]

/-- Joining one more part to a join that is not empty reads it where the join leads. -/
theorem locate_join_concat (cwd : List (List Char)) {parts : List (List Char)}
    (hne : parts.filter (· ≠ []) ≠ []) (part : List Char) :
    locate cwd (join (parts ++ [part])) = walk (locate cwd (join parts)) (segments part) := by
  have hcons : ∀ parts' : List (List Char), parts'.filter (· ≠ []) ≠ [] →
      ∃ first rest, first ≠ [] ∧ parts'.filter (· ≠ []) = first :: rest := by
    intro parts' h
    obtain ⟨first, rest, e⟩ := List.exists_cons_of_ne_nil h
    have hmem : first ∈ parts'.filter (· ≠ []) := by rw [e]; simp
    exact ⟨first, rest, by simpa using List.of_mem_filter hmem, e⟩
  obtain ⟨first, rest, hfirst, e⟩ := hcons parts hne
  have hsnoc : (parts ++ [part]).filter (· ≠ []) = first :: (rest ++ [part].filter (· ≠ [])) := by
    rw [List.filter_append, e, List.cons_append]
  have hpart := walk_flatMap_filter (walk (if isAbsolute first then [] else cwd)
    (segments first ++ rest.flatMap segments)) [part]
  rw [List.flatMap_singleton] at hpart
  unfold join
  rw [locate_normalize, locate_normalize, e, hsnoc]
  unfold locate
  rw [isAbsolute_intercalate_cons hfirst, isAbsolute_intercalate_cons hfirst,
    segments_intercalate_cons, segments_intercalate_cons, List.flatMap_append, ← List.append_assoc,
    walk_append, hpart]

theorem head?_segments_join_file {file : List Char} (hseg : IsName seg) (hfile : IsName file)
    (hne : seg ≠ file) :
    (segments (join [normalize path, file])).head? = some seg ↔
      (segments (normalize path)).head? = some seg := by
  have hpath : normalize path ≠ [] := normalize_ne_nil path
  have hjoin : join [normalize path, file] = normalize (normalize path ++ '/' :: file) := by
    unfold join
    rw [List.filter_cons_of_pos (by simpa using hpath),
      List.filter_cons_of_pos (by simpa using hfile.ne_nil), List.filter_nil]
    simp [List.intercalate]
  have habs : isAbsolute (normalize path ++ '/' :: file) = isAbsolute path := by
    rw [← isAbsolute_normalize path]
    obtain ⟨c, cs, e⟩ := List.exists_cons_of_ne_nil hpath
    rw [e]; rfl
  rw [hjoin, head?_segments_normalize hseg, head?_segments_normalize hseg, habs]
  refine and_congr_right fun hrel => ?_
  have hclimb : climb true (segments (normalize path ++ '/' :: file)) =
      (climb true (segments path)).move true file := by
    rw [segments_append_slash,
      show segments file = [file] from List.splitOn_eq_singleton hfile.no_slash,
      ← climb_normalize hrel]
    exact List.foldl_append
  rw [hclimb, hfile.climb_move]
  show (List.replicate _ _ ++ (_ ++ [file])).head? = some seg ↔ _
  rw [← List.append_assoc]
  show ((climb true (segments path)).segments ++ [file]).head? = some seg ↔ _
  cases (climb true (segments path)).segments with
  | nil => simpa using Ne.symm hne
  | cons first rest => simp

theorem join_singleton (part : List Char) : join [part] = normalize part := by
  by_cases h : part = []
  · subst h; rfl
  · unfold join
    rw [List.filter_cons_of_pos (by simpa using h), List.filter_nil]
    simp [List.intercalate]

theorem join_nil_cons (parts : List (List Char)) : join ([] :: parts) = join parts := by
  unfold join
  rw [List.filter_cons_of_neg (by simp)]

/-! ## Staying below a directory -/

/-- The climb comes back: it goes down again through the names it climbed, and further. -/
def Climb.StaysBelow (c : Climb) (loc : List (List Char)) : Prop :=
  Inside (loc.drop (loc.length - c.ups)) c.names

/-- A walk ends strictly below its start exactly when its climb comes back. -/
theorem walk_inside_iff (loc segs : List (List Char)) :
    Inside loc (walk loc segs) ↔ (climb true segs).StaysBelow loc := by
  rw [walk_eq]
  unfold Climb.apply Climb.StaysBelow Inside
  have hpre := @List.prefix_append_right_inj _ (loc.drop (loc.length - (climb true segs).ups))
    (climb true segs).names (loc.take (loc.length - (climb true segs).ups))
  rw [List.take_append_drop] at hpre
  rw [hpre, List.length_append, List.length_take, List.length_drop]
  refine and_congr_right fun _ => ?_
  omega

end PieLab.Lib.Posix
