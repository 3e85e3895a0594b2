import Mathlib.Algebra.Order.Ring.Int
import Mathlib.Data.List.Basic
import Mathlib.Data.Int.ConditionallyCompleteOrder
import Mathlib.Data.Int.Interval
import Mathlib.Order.Interval.Finset.Defs
import Mathlib.Tactic.Linarith

/-
  Local clocks — a library

  A clock shows the instant plus an offset, and the offset changes at known instants.
  Where it grows the clock skips some readings; where it shrinks it shows some twice.
  The instant of a reading is the first at which the clock shows it; a reading that
  is skipped is taken with the offset in force before.

  What is proved:
    1. `toInstant_shown` — what the instant of a reading is.
    2. `next_spec` — moving the reading on by one unit leads to the next instant, on
       whole units, that is the first to show its reading.
    3. `steps_next` — how many such instants there are up to another one.
-/

namespace PieLab.Lib

/-! ## Chains of changes -/

/-- The readings one change skips or repeats lie before those of the next change. -/
def OrderedChanges : ℤ → List (ℤ × ℤ) → Prop
  | _, [] => True
  | offset, (start, next) :: rest =>
    (∀ c ∈ rest.head?, start < c.1 ∧ start + max offset next < c.1 + min next c.2) ∧
      OrderedChanges next rest

def offsetFrom : ℤ → List (ℤ × ℤ) → ℤ → ℤ
  | offset, [], _ => offset
  | offset, (start, next) :: rest, t => if t < start then offset else offsetFrom next rest t

/-- The instant a reading stands for. -/
def instantFrom : ℤ → List (ℤ × ℤ) → ℤ → ℤ
  | offset, [], l => l - offset
  | offset, (start, next) :: rest, l =>
    if l - offset < start ∨ l < start + next then l - offset else instantFrom next rest l

variable {t l c : ℤ}

section Chains
variable {offset start next : ℤ} {changes rest : List (ℤ × ℤ)}

theorem offsetFrom_here (h : ∀ c ∈ changes.head?, t < c.1) :
    offsetFrom offset changes t = offset := by
  cases changes with
  | nil => rfl
  | cons c rest => exact if_pos (h c rfl)

theorem instantFrom_here (h : ∀ c ∈ changes.head?, l - offset < c.1) :
    instantFrom offset changes l = l - offset := by
  cases changes with
  | nil => rfl
  | cons c rest => exact if_pos (.inl (h c rfl))

theorem offsetFrom_after (h : start ≤ t) :
    offsetFrom offset ((start, next) :: rest) t = offsetFrom next rest t :=
  if_neg (by omega)

theorem reading_ge {bound : ℤ} (hord : OrderedChanges offset changes)
    (hbound : ∀ c ∈ changes.head?, bound ≤ c.1 + min offset c.2) (ht : bound - offset ≤ t) :
    bound ≤ t + offsetFrom offset changes t := by
  induction changes generalizing offset with
  | nil => rw [offsetFrom]; omega
  | cons c rest ih =>
    obtain ⟨start, next⟩ := c
    obtain ⟨hhead, hrest⟩ := hord
    have hb : bound ≤ start + min offset next := hbound _ rfl
    rw [offsetFrom]
    split
    · omega
    · refine ih hrest (fun c hc => ?_) (by omega)
      have := (hhead c hc).2
      omega

theorem instantFrom_ge (hord : OrderedChanges offset changes)
    (hhead : ∀ c ∈ changes.head?, start < c.1) (hl : start + offset ≤ l) :
    start ≤ instantFrom offset changes l := by
  induction changes generalizing offset start with
  | nil => rw [instantFrom]; omega
  | cons c rest ih =>
    obtain ⟨start', next⟩ := c
    have hlt : start < start' := hhead _ rfl
    rw [instantFrom]
    split
    · omega
    · rename_i h
      have hnext : start' ≤ instantFrom next rest l :=
        ih hord.2 (fun c hc => (hord.1 c hc).1) (by omega)
      omega

theorem reading_after (hord : OrderedChanges offset ((start, next) :: rest)) (ht : start ≤ t) :
    start + next ≤ t + offsetFrom next rest t := by
  refine reading_ge hord.2 (fun c hc => ?_) (by omega)
  have := (hord.1 c hc).2
  omega

theorem instantFrom_reading (hord : OrderedChanges offset changes) (t : ℤ) :
    let l := t + offsetFrom offset changes t
    instantFrom offset changes l ≤ t ∧
      instantFrom offset changes l + offsetFrom offset changes (instantFrom offset changes l) =
        l := by
  induction changes generalizing offset with
  | nil => simp [offsetFrom, instantFrom]
  | cons c rest ih =>
    obtain ⟨start, next⟩ := c
    intro l
    by_cases ht : t < start
    · have hl : l = t + offset := by simp [l, offsetFrom, ht]
      have hinstant : instantFrom offset ((start, next) :: rest) l = t := by
        rw [instantFrom, if_pos (.inl (by omega))]
        omega
      rw [hinstant]
      exact ⟨Int.le_refl t, rfl⟩
    · have hle : start ≤ t := by omega
      have hl : l = t + offsetFrom next rest t := by
        simp only [l, offsetFrom_after hle]
      have hge : start + next ≤ l := by
        rw [hl]
        exact reading_after hord hle
      by_cases hearly : l - offset < start
      · -- the reading was shown before the change already
        have hinstant : instantFrom offset ((start, next) :: rest) l = l - offset := by
          rw [instantFrom, if_pos (.inl hearly)]
        have hoffset : offsetFrom offset ((start, next) :: rest) (l - offset) = offset := by
          rw [offsetFrom, if_pos hearly]
        rw [hinstant, hoffset]
        exact ⟨by omega, by omega⟩
      · have hinstant : instantFrom offset ((start, next) :: rest) l = instantFrom next rest l := by
          rw [instantFrom, if_neg (by omega)]
        obtain ⟨hfirst, hshows⟩ := ih hord.2
        rw [← hl] at hfirst hshows
        have hafter := instantFrom_ge hord.2 (fun c hc => (hord.1 c hc).1) hge
        rw [hinstant, offsetFrom_after hafter]
        exact ⟨hfirst, hshows⟩

theorem dvd_offsetFrom {unit : ℤ} (ho : unit ∣ offset) (h : ∀ c ∈ changes, unit ∣ c.1 ∧ unit ∣ c.2)
    (t : ℤ) : unit ∣ offsetFrom offset changes t := by
  induction changes generalizing offset with
  | nil => exact ho
  | cons c rest ih =>
    obtain ⟨hc, hrest⟩ := List.forall_mem_cons.1 h
    rw [offsetFrom]
    split
    · exact ho
    · exact ih hc.2 hrest

theorem dvd_instantFrom {unit : ℤ} (ho : unit ∣ offset) (h : ∀ c ∈ changes, unit ∣ c.1 ∧ unit ∣ c.2)
    (hl : unit ∣ l) : unit ∣ instantFrom offset changes l := by
  induction changes generalizing offset with
  | nil => exact Int.dvd_sub hl ho
  | cons c rest ih =>
    obtain ⟨hc, hrest⟩ := List.forall_mem_cons.1 h
    rw [instantFrom]
    split
    · exact Int.dvd_sub hl ho
    · exact ih hc.2 hrest

end Chains

/-! ## One unit on -/

theorem no_multiple_between {unit s : ℤ} (hc : unit ∣ c) (hs : unit ∣ s) (hlt : c < s) :
    c + unit ≤ s := by
  have := Int.le_of_dvd (by omega) (Int.dvd_sub hs hc)
  omega

/-- What moving the reading on from `c` leads to. -/
structure MovesTo (offset : ℤ) (changes : List (ℤ × ℤ)) (unit c u : ℤ) : Prop where
  later : c < u
  first : instantFrom offset changes (u + offsetFrom offset changes u) = u
  reading : c + offsetFrom offset changes c + unit ≤ u + offsetFrom offset changes u
  between : ∀ s, unit ∣ s → c < s → s < u →
    instantFrom offset changes (s + offsetFrom offset changes s) ≠ s

theorem movesTo_here {offset unit : ℤ} {changes : List (ℤ × ℤ)} (hunit : 0 < unit) (hc : unit ∣ c)
    (h : ∀ d ∈ changes.head?, c + unit < d.1) : MovesTo offset changes unit c (c + unit) := by
  have hhere : offsetFrom offset changes c = offset :=
    offsetFrom_here fun d hd => by have := h d hd; omega
  have hnext : offsetFrom offset changes (c + unit) = offset := offsetFrom_here h
  refine ⟨by omega, ?_, by rw [hhere, hnext]; omega, fun s hs hlt hgt => ?_⟩
  · rw [hnext, instantFrom_here (fun d hd => by have := h d hd; omega)]
    omega
  · have := no_multiple_between hc hs hlt
    omega

theorem movesTo_change {offset start next unit : ℤ} {rest : List (ℤ × ℤ)} (hunit : 0 < unit)
    (hord : OrderedChanges offset ((start, next) :: rest)) (hc : unit ∣ c)
    (hstart : c + unit = start) :
    MovesTo offset ((start, next) :: rest) unit c
      (if offset < next then start else start + offset - next) := by
  have hhere : offsetFrom offset ((start, next) :: rest) c = offset := by
    rw [offsetFrom, if_pos (by omega)]
  -- the offset of the change is in force when its repeated readings are over
  have hnext : ∀ t, start ≤ t → t ≤ max start (start + offset - next) →
      offsetFrom offset ((start, next) :: rest) t = next := by
    intro t hle hmax
    rw [offsetFrom_after hle]
    refine offsetFrom_here fun d hd => ?_
    have := hord.1 d hd
    omega
  by_cases hforward : offset < next
  · rw [if_pos hforward]
    have hstarts := hnext start (by omega) (by omega)
    refine ⟨by omega, ?_, by rw [hhere, hstarts]; omega, fun s hs hlt hgt => ?_⟩
    · rw [hstarts, instantFrom, if_neg (by omega),
        instantFrom_here (fun d hd => by have := (hord.1 d hd).1; omega)]
      omega
    · have := no_multiple_between hc hs hlt
      omega
  · rw [if_neg hforward]
    have hends := hnext (start + offset - next) (by omega) (by omega)
    refine ⟨by omega, ?_, by rw [hhere, hends]; omega, fun s hs hlt hgt => ?_⟩
    · rw [hends, instantFrom, if_neg (by omega),
        instantFrom_here (fun d hd => by have := hord.1 d hd; omega)]
      omega
    · -- `s` shows again what was shown before the change
      have hle := no_multiple_between hc hs hlt
      rw [hnext s (by omega) (by omega), instantFrom, if_pos (.inl (by omega))]
      omega

theorem MovesTo.after {offset start next unit u : ℤ} {rest : List (ℤ × ℤ)} (hunit : 0 < unit)
    (hord : OrderedChanges offset ((start, next) :: rest)) (hc : start ≤ c)
    (hfirst : start ≤ c + offsetFrom next rest c - offset) (h : MovesTo next rest unit c u) :
    MovesTo offset ((start, next) :: rest) unit c u := by
  have hlater := h.later
  have hreading := h.reading
  have hu : start ≤ u := by omega
  refine ⟨hlater, ?_, ?_, fun s hs hlt hgt => ?_⟩
  · have := reading_after hord hu
    rw [offsetFrom_after hu, instantFrom, if_neg (by omega)]
    exact h.first
  · rw [offsetFrom_after hu, offsetFrom_after hc]
    exact hreading
  · have hs' : start ≤ s := by omega
    have := reading_after hord hs'
    rw [offsetFrom_after hs', instantFrom]
    split
    · omega
    · exact h.between s hs hlt hgt

theorem movesTo_next {offset unit : ℤ} {changes : List (ℤ × ℤ)} (hunit : 0 < unit)
    (hord : OrderedChanges offset changes) (ho : unit ∣ offset)
    (hwhole : ∀ c ∈ changes, unit ∣ c.1 ∧ unit ∣ c.2) (hc : unit ∣ c)
    (hfirst : instantFrom offset changes (c + offsetFrom offset changes c) = c) :
    MovesTo offset changes unit c
      (instantFrom offset changes (c + offsetFrom offset changes c + unit)) := by
  induction changes generalizing offset with
  | nil =>
    have hnext : instantFrom offset [] (c + offsetFrom offset [] c + unit) = c + unit := by
      rw [instantFrom, offsetFrom]
      omega
    rw [hnext]
    exact movesTo_here hunit hc (by simp)
  | cons d rest ih =>
    obtain ⟨start, next⟩ := d
    obtain ⟨⟨hstart, hnext⟩, hrest⟩ := List.forall_mem_cons.1 hwhole
    by_cases hbefore : c < start
    · have hoffset : offsetFrom offset ((start, next) :: rest) c = offset := by
        rw [offsetFrom, if_pos hbefore]
      rw [hoffset]
      rcases Int.lt_or_eq_of_le (no_multiple_between hc hstart hbefore) with hlt | heq
      · have hhere : instantFrom offset ((start, next) :: rest) (c + offset + unit) = c + unit := by
          rw [instantFrom, if_pos (.inl (by omega))]
          omega
        rw [hhere]
        exact movesTo_here hunit hc (by simpa using hlt)
      · have hchange : instantFrom offset ((start, next) :: rest) (c + offset + unit) =
            if offset < next then start else start + offset - next := by
          rw [instantFrom]
          split
          · rw [if_pos (by omega)]
            omega
          · rw [if_neg (by omega), instantFrom_here (fun d hd => by have := hord.1 d hd; omega)]
            omega
        rw [hchange]
        exact movesTo_change hunit hord hc heq
    · have hafter : start ≤ c := by omega
      have hreading := reading_after hord hafter
      rw [offsetFrom_after hafter] at hfirst ⊢
      have hle : start ≤ c + offsetFrom next rest c - offset := by
        by_contra hlt
        rw [instantFrom, if_pos (.inl (by omega))] at hfirst
        omega
      rw [instantFrom, if_neg (by omega)] at hfirst
      have hstep : instantFrom offset ((start, next) :: rest) (c + offsetFrom next rest c + unit) =
          instantFrom next rest (c + offsetFrom next rest c + unit) := by
        rw [instantFrom, if_neg (by omega)]
      rw [hstep]
      exact (ih hord.2 hnext hrest hfirst).after hunit hord hafter hle

/-! ## Clocks -/

/-- A clock with its changes in order, all on whole units. -/
structure Clock (unit : ℤ) where
  offset : ℤ
  changes : List (ℤ × ℤ)
  pos : 0 < unit
  whole : unit ∣ offset ∧ ∀ c ∈ changes, unit ∣ c.1 ∧ unit ∣ c.2
  ordered : OrderedChanges offset changes

namespace Clock
variable {unit : ℤ} (clock : Clock unit)

/-- What the clock shows at an instant. -/
def reading (t : ℤ) : ℤ := t + offsetFrom clock.offset clock.changes t

/-- The instant of a reading. -/
def toInstant (l : ℤ) : ℤ := instantFrom clock.offset clock.changes l

/-- The clock did not show this reading before. -/
def FirstShown (t : ℤ) : Prop := clock.toInstant (clock.reading t) = t

instance (t : ℤ) : Decidable (clock.FirstShown t) := inferInstanceAs (Decidable (_ = _))

/-- The instant of the reading one unit on. -/
def next (t : ℤ) : ℤ := clock.toInstant (clock.reading t + unit)

theorem toInstant_shown (t : ℤ) :
    clock.toInstant (clock.reading t) ≤ t ∧
      clock.reading (clock.toInstant (clock.reading t)) = clock.reading t :=
  instantFrom_reading clock.ordered t

theorem firstShown_toInstant (t : ℤ) : clock.FirstShown (clock.toInstant (clock.reading t)) := by
  rw [FirstShown, (clock.toInstant_shown t).2]

theorem dvd_reading (h : unit ∣ t) : unit ∣ clock.reading t :=
  Int.dvd_add h (dvd_offsetFrom clock.whole.1 clock.whole.2 t)

theorem dvd_toInstant (h : unit ∣ l) : unit ∣ clock.toInstant l :=
  dvd_instantFrom clock.whole.1 clock.whole.2 h

theorem dvd_next (h : unit ∣ t) : unit ∣ clock.next t :=
  clock.dvd_toInstant (Int.dvd_add (clock.dvd_reading h) (Int.dvd_refl unit))

/-- From an instant that is the first to show its reading, the next that is. -/
theorem next_spec (hc : unit ∣ c) (hfirst : clock.FirstShown c) :
    c < clock.next c ∧ clock.FirstShown (clock.next c) ∧
      ∀ s, unit ∣ s → c < s → s < clock.next c → ¬ clock.FirstShown s := by
  have h := movesTo_next clock.pos clock.ordered clock.whole.1 clock.whole.2 hc hfirst
  exact ⟨h.later, h.first, h.between⟩

/-- How many whole units after `c` and up to `s` are the first to show their reading. -/
noncomputable def steps (c s : ℤ) : ℕ :=
  ((Finset.Ioc (c / unit) (s / unit)).filter fun k => clock.FirstShown (k * unit)).card

theorem steps_self (c : ℤ) : clock.steps c c = 0 := by simp [steps]

theorem steps_next {s : ℤ} (hc : unit ∣ c) (hfirst : clock.FirstShown c) (hs : unit ∣ s)
    (hle : clock.next c ≤ s) : clock.steps c s = clock.steps (clock.next c) s + 1 := by
  obtain ⟨hlater, hnext, hbetween⟩ := clock.next_spec hc hfirst
  obtain ⟨i, rfl⟩ := hc
  obtain ⟨j, hj⟩ := clock.dvd_next (Int.dvd_mul_right unit i)
  obtain ⟨k, rfl⟩ := hs
  have hpos := clock.pos
  rw [hj] at hlater hnext hbetween hle ⊢
  have hij : i < j := lt_of_mul_lt_mul_left hlater hpos.le
  have hjk : j ≤ k := le_of_mul_le_mul_left hle hpos
  simp only [steps, Int.mul_ediv_cancel_left _ hpos.ne']
  -- the next one, and those behind it
  have hsplit : (Finset.Ioc i k).filter (fun x => clock.FirstShown (x * unit)) =
      insert j ((Finset.Ioc j k).filter fun x => clock.FirstShown (x * unit)) := by
    ext x
    simp only [Finset.mem_insert, Finset.mem_filter, Finset.mem_Ioc]
    constructor
    · rintro ⟨⟨hix, hxk⟩, hx⟩
      rcases lt_trichotomy x j with hlt | rfl | hgt
      · refine absurd (by rwa [mul_comm] at hx)
          (hbetween (unit * x) (Int.dvd_mul_right unit x) ?_ ?_)
        · exact mul_lt_mul_of_pos_left hix hpos
        · exact mul_lt_mul_of_pos_left hlt hpos
      · exact .inl rfl
      · exact .inr ⟨⟨hgt, hxk⟩, hx⟩
    · rintro (rfl | ⟨⟨hjx, hxk⟩, hx⟩)
      · exact ⟨⟨hij, hjk⟩, by rwa [mul_comm]⟩
      · exact ⟨⟨lt_trans hij hjx, hxk⟩, hx⟩
  rw [hsplit, Finset.card_insert_of_notMem (by simp)]

theorem reading_floor (t : ℤ) :
    clock.reading t / unit * unit = clock.reading (t / unit * unit) := by
  have hpos := clock.pos
  have hoffset : ∀ {offset : ℤ} {changes : List (ℤ × ℤ)},
      (∀ c ∈ changes, unit ∣ c.1 ∧ unit ∣ c.2) →
      offsetFrom offset changes (t / unit * unit) = offsetFrom offset changes t := by
    intro offset changes h
    induction changes generalizing offset with
    | nil => rfl
    | cons c rest ih =>
      obtain ⟨hc, hrest⟩ := List.forall_mem_cons.1 h
      obtain ⟨k, hk⟩ := hc.1
      -- a change on a whole unit is behind `t` where it is behind the unit `t` is in
      have hiff : t / unit * unit < c.1 ↔ t < c.1 := by
        rw [hk, mul_comm unit k, mul_lt_mul_iff_left₀ hpos, Int.ediv_lt_iff_lt_mul hpos]
      simp only [offsetFrom, hiff, ih hrest]
  obtain ⟨o, ho⟩ := dvd_offsetFrom clock.whole.1 clock.whole.2 t
  rw [reading, reading, hoffset clock.whole.2, ho, Int.add_mul_ediv_left _ _ hpos.ne', add_mul,
    mul_comm unit o]

end Clock

end PieLab.Lib
