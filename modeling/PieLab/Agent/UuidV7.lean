import Mathlib.Data.List.Chain
import Mathlib.Algebra.BigOperators.Group.List.Basic

/-
  Ids in the order of their creation

  An id has the time in milliseconds in front, then a count of 32 bits, which is drawn when
  the clock has moved on and goes up by one when it has not; a count that starts over takes
  the next millisecond. The bits stand around a version and a variant.

  What is proved:
    1. `spell_below` — digits of a greater number, spelled in order, come later.
    2. `uuidRun_increases` — the ids of at most 2^32 + 1 calls increase, whatever the clock
       does, and each has its marks.
    3. `uuid_overflows` — one call more: the clock stands still at the end of its range, the
       count starts over twice, and the time has no bit left.

  Correspondence (TypeScript ↔ Lean), packages/agent/src/harness/session/uuid.ts:
    `uuidv7`, the two branches ↔ `UuidState.next`; its bytes ↔ `uuidBytes`
    `formatUuid` ↔ `formatUuid`
  A reading of the clock and sixteen random bytes are the input of a call. Divisions of the
  time by powers of two are exact below 2^53, and are rounded down by the `&` behind them.
-/

namespace PieLab.Uuid

structure UuidCall where
  /-- `Date.now()` -/
  timestamp : Nat
  /-- `random[i]` -/
  random : Nat → UInt8

/-- `none` for `-Infinity`. -/
structure UuidState where
  lastTimestamp : Option Nat := none
  sequence : Nat := 0

def drawn (random : Nat → UInt8) : Nat :=
  (random 6).toNat * 0x1000000 + (random 7).toNat * 0x10000 + (random 8).toNat * 0x100 + (random 9).toNat

/-- The count has gone up; the time does when it starts over. -/
def counted (last sequence : Nat) : UuidState where
  lastTimestamp := some (if sequence = 0 then last + 1 else last)
  sequence := sequence

def UuidState.next (s : UuidState) (c : UuidCall) : UuidState :=
  match s.lastTimestamp with
  | none => { lastTimestamp := some c.timestamp, sequence := drawn c.random }
  | some last =>
    if last < c.timestamp then { lastTimestamp := some c.timestamp, sequence := drawn c.random }
    else counted last ((s.sequence + 1) % 2 ^ 32)

def uuidBytes (lastTimestamp sequence : Nat) (random : Nat → UInt8) : List Nat :=
  [(lastTimestamp / 0x10000000000) &&& 0xff, (lastTimestamp / 0x100000000) &&& 0xff,
    (lastTimestamp / 0x1000000) &&& 0xff, (lastTimestamp / 0x10000) &&& 0xff,
    (lastTimestamp / 0x100) &&& 0xff, lastTimestamp &&& 0xff,
    0x70 ||| ((sequence >>> 28) &&& 0x0f), (sequence >>> 20) &&& 0xff,
    0x80 ||| ((sequence >>> 14) &&& 0x3f), (sequence >>> 6) &&& 0xff,
    ((sequence &&& 0x3f) <<< 2) ||| ((random 10).toNat &&& 0x03),
    (random 11).toNat, (random 12).toNat, (random 13).toNat, (random 14).toNat, (random 15).toNat]

def hexDigit (d : Nat) : Char := "0123456789abcdef".toList.getD d '0'

/-- `byte.toString(16).padStart(2, "0")` -/
def hexByte (byte : Nat) : List Char := [hexDigit (byte / 16), hexDigit (byte % 16)]

def formatUuid (bytes : List Nat) : List Char :=
  let hex := bytes.map hexByte
  (hex.take 4).flatten ++ '-' :: ((hex.drop 4).take 2).flatten ++ '-' :: ((hex.drop 6).take 2).flatten ++
    '-' :: ((hex.drop 8).take 2).flatten ++ '-' :: ((hex.drop 10).take 6).flatten

/-- The bytes of the ids, call by call. -/
def uuidRun : UuidState → List UuidCall → List (List Nat)
  | _, [] => []
  | s, c :: calls =>
    let s := s.next c
    uuidBytes (s.lastTimestamp.getD 0) s.sequence c.random :: uuidRun s calls

/-- Version 7, and the variant with the bits 10. -/
def Marked (bytes : List Nat) : Prop :=
  ∃ version variant, bytes[6]? = some version ∧ bytes[8]? = some variant ∧ version / 16 = 7 ∧ variant / 64 = 2

/-! ## Spelling numbers -/

/-- The first text comes before the second one, whatever stands behind them. -/
def Below (a b : List Char) : Prop := ∃ p x y s t, a = p ++ x :: s ∧ b = p ++ y :: t ∧ x < y

theorem Below.append {a b : List Char} (h : Below a b) (s t : List Char) :
    Below (a ++ s) (b ++ t) := by
  obtain ⟨p, x, y, s', t', rfl, rfl, hxy⟩ := h
  exact ⟨p, x, y, s' ++ s, t' ++ t, by simp, by simp, hxy⟩

theorem Below.prepend {a b : List Char} (h : Below a b) (p : List Char) :
    Below (p ++ a) (p ++ b) := by
  obtain ⟨q, x, y, s, t, rfl, rfl, hxy⟩ := h
  exact ⟨p ++ q, x, y, s, t, by simp, by simp, hxy⟩

theorem Below.lt {a b : List Char} (h : Below a b) : a < b := by
  obtain ⟨p, x, y, s, t, rfl, rfl, hxy⟩ := h
  induction p with
  | nil => exact List.cons_lt_cons_iff.mpr (.inl hxy)
  | cons c p ih => exact List.cons_lt_cons_iff.mpr (.inr ⟨rfl, ih⟩)

/-- A place of a numeral: how many digits there are, and how one is written. -/
structure Place where
  radix : Nat
  write : Nat → List Char

def placesValue (places : List Place) : Nat := (places.map Place.radix).prod

/-- The digits of a number, written one after the other. -/
def spell : List Place → Nat → List Char
  | [], _ => []
  | place :: places, n => place.write (n / placesValue places % place.radix) ++ spell places n

def Place.Ordered (place : Place) : Prop :=
  ∀ d d', d < d' → d' < place.radix → Below (place.write d) (place.write d')

theorem spell_below {places : List Place}
    (hplaces : ∀ place ∈ places, place.Ordered ∧ 0 < place.radix) {m n : Nat}
    (hlt : m < n) (hsame : m / placesValue places = n / placesValue places) : Below (spell places m) (spell places n) := by
  induction places with
  | nil => simp [placesValue] at hsame; omega
  | cons place places ih =>
    obtain ⟨hordered, hradix⟩ := hplaces place List.mem_cons_self
    have hvalue : placesValue (place :: places) = placesValue places * place.radix := by
      simp [placesValue, Nat.mul_comm]
    rw [hvalue, ← Nat.div_div_eq_div_mul, ← Nat.div_div_eq_div_mul] at hsame
    by_cases hhead : m / placesValue places = n / placesValue places
    · rw [spell, spell, hhead]
      exact (ih (fun other hother => hplaces other (List.mem_cons_of_mem place hother)) hhead).prepend _
    · have hle : m / placesValue places ≤ n / placesValue places := Nat.div_le_div_right hlt.le
      refine (hordered _ _ ?_ (Nat.mod_lt _ hradix)).append _ _
      have hm := Nat.div_add_mod (m / placesValue places) place.radix
      have hn := Nat.div_add_mod (n / placesValue places) place.radix
      rw [hsame] at hm
      omega

/-! ## The places of an id -/

theorem hexDigit_lt {d d' : Nat} (hlt : d < d') (hd' : d' < 16) : hexDigit d < hexDigit d' := by
  have hall : ∀ d' < 16, ∀ d < d', hexDigit d < hexDigit d' := by decide
  exact hall d' hd' d hlt

theorem hexByte_below {b b' : Nat} (hlt : b < b') (hb' : b' < 256) :
    Below (hexByte b) (hexByte b') := by
  by_cases hhead : b / 16 = b' / 16
  · refine ⟨[hexDigit (b / 16)], hexDigit (b % 16), hexDigit (b' % 16), [], [], by simp [hexByte],
      ?_, ?_⟩
    · simp [hexByte, hhead]
    · exact hexDigit_lt (by omega) (by omega)
  · exact ⟨[], hexDigit (b / 16), hexDigit (b' / 16), [hexDigit (b % 16)], [hexDigit (b' % 16)],
      by simp [hexByte],
      by simp [hexByte], hexDigit_lt (by omega) (by omega)⟩

/-- A byte above fixed bits, with a text behind it. -/
def bytePlace (radix fixed : Nat) (behind : List Char) :
    Place := ⟨radix, fun d => hexByte (fixed + d) ++ behind⟩

theorem bytePlace_ordered {radix fixed : Nat} (hfits : fixed + radix ≤ 256) (behind : List Char) :
    (bytePlace radix fixed behind).Ordered := by
  intro d d' hlt hd'
  have hd' : d' < radix := hd'
  exact (hexByte_below (by omega) (by omega)).append behind behind

def idPlaces : List Place :=
  [bytePlace 256 0 [], bytePlace 256 0 [], bytePlace 256 0 [], bytePlace 256 0 ['-'], bytePlace 256 0 [],
    bytePlace 256 0 ['-'], bytePlace 16 112 [], bytePlace 256 0 ['-'], bytePlace 64 128 [], bytePlace 256 0 ['-'],
    bytePlace 256 0 [], bytePlace 256 0 [], bytePlace 256 0 [], bytePlace 256 0 [], bytePlace 256 0 [],
    bytePlace 256 0 []]

theorem idPlaces_ordered : ∀ place ∈ idPlaces, place.Ordered ∧ 0 < place.radix := by
  intro place hplace
  simp only [idPlaces, List.mem_cons, List.not_mem_nil, or_false] at hplace
  obtain rfl | rfl | rfl | rfl | rfl | rfl | rfl | rfl | rfl | rfl | rfl | rfl | rfl | rfl | rfl | rfl := hplace <;>
    exact ⟨bytePlace_ordered (by omega) _, by decide⟩

/-- The bits of an id but the fixed ones. -/
def idValue (lastTimestamp sequence : Nat) (random : Nat → UInt8) : Nat :=
  ((((((lastTimestamp * 2 ^ 32 + sequence) * 4 + (random 10).toNat % 4) * 256 + (random 11).toNat) * 256 +
    (random 12).toNat) * 256 + (random 13).toNat) * 256 + (random 14).toNat) * 256 + (random 15).toNat

theorem or_fixed : (∀ d < 16, 112 ||| d = 112 + d) ∧ (∀ d < 64, 128 ||| d = 128 + d) ∧
    ∀ d < 64, ∀ r < 4, d <<< 2 ||| r = d * 4 + r := by
  refine ⟨by decide, by decide, ?_⟩
  intro d _ r hr
  rw [Nat.shiftLeft_eq, Nat.mul_comm, ← Nat.two_pow_add_eq_or_of_lt hr]

theorem uuidBytes_eq (lastTimestamp sequence : Nat) (random : Nat → UInt8) :
    uuidBytes lastTimestamp sequence random =
    [lastTimestamp / 0x10000000000 % 256, lastTimestamp / 0x100000000 % 256, lastTimestamp / 0x1000000 % 256,
      lastTimestamp / 0x10000 % 256, lastTimestamp / 0x100 % 256, lastTimestamp % 256, 112 + sequence / 2 ^ 28 % 16,
      sequence / 2 ^ 20 % 256, 128 + sequence / 2 ^ 14 % 64, sequence / 2 ^ 6 % 256,
      sequence % 64 * 4 + (random 10).toNat % 4, (random 11).toNat, (random 12).toNat, (random 13).toNat,
      (random 14).toNat, (random 15).toNat] := by
  have hbyte : ∀ x, x &&& 0xff = x % 256 := fun x => Nat.and_two_pow_sub_one_eq_mod x 8
  have hfour : ∀ x, x &&& 0x0f = x % 16 := fun x => Nat.and_two_pow_sub_one_eq_mod x 4
  have hsix : ∀ x, x &&& 0x3f = x % 64 := fun x => Nat.and_two_pow_sub_one_eq_mod x 6
  have htwo : ∀ x, x &&& 0x03 = x % 4 := fun x => Nat.and_two_pow_sub_one_eq_mod x 2
  obtain ⟨hversion, hvariant, hlow⟩ := or_fixed
  simp only [uuidBytes, hbyte, hfour, hsix, htwo, Nat.shiftRight_eq_div_pow]
  rw [hversion _ (Nat.mod_lt _ (by decide)), hvariant _ (Nat.mod_lt _ (by decide)),
    hlow _ (Nat.mod_lt _ (by decide)) _ (Nat.mod_lt _ (by decide))]

variable {sequence last value : Nat} {s : UuidState} {c : UuidCall} {calls : List UuidCall}

/-- An id is its bits, spelled with the fixed ones. -/
theorem formatUuid_eq {lastTimestamp : Nat} (hsequence : sequence < 2 ^ 32) (random : Nat → UInt8) :
    formatUuid (uuidBytes lastTimestamp sequence random) = spell idPlaces (idValue lastTimestamp sequence random) := by
  have hrandom : ∀ i, (random i).toNat < 256 := fun i => (random i).toNat_lt
  have h11 := hrandom 11
  have h12 := hrandom 12
  have h13 := hrandom 13
  have h14 := hrandom 14
  have h15 := hrandom 15
  rw [uuidBytes_eq, idValue]
  have h10 : (random 10).toNat % 4 < 4 := Nat.mod_lt _ (by decide)
  generalize (random 10).toNat % 4 = r10 at *
  generalize (random 11).toNat = r11 at *
  generalize (random 12).toNat = r12 at *
  generalize (random 13).toNat = r13 at *
  generalize (random 14).toNat = r14 at *
  generalize (random 15).toNat = r15 at *
  generalize hvalue : ((((((lastTimestamp * 2 ^ 32 + sequence) * 4 + r10) * 256 + r11) * 256 + r12) * 256 + r13) * 256 +
    r14) * 256 + r15 = value
  have e0 : value / 2 ^ 114 % 256 = lastTimestamp / 0x10000000000 % 256 := by omega
  have e1 : value / 2 ^ 106 % 256 = lastTimestamp / 0x100000000 % 256 := by omega
  have e2 : value / 2 ^ 98 % 256 = lastTimestamp / 0x1000000 % 256 := by omega
  have e3 : value / 2 ^ 90 % 256 = lastTimestamp / 0x10000 % 256 := by omega
  have e4 : value / 2 ^ 82 % 256 = lastTimestamp / 0x100 % 256 := by omega
  have e5 : value / 2 ^ 74 % 256 = lastTimestamp % 256 := by omega
  have e6 : value / 2 ^ 70 % 16 = sequence / 2 ^ 28 % 16 := by omega
  have e7 : value / 2 ^ 62 % 256 = sequence / 2 ^ 20 % 256 := by omega
  have e8 : value / 2 ^ 56 % 64 = sequence / 2 ^ 14 % 64 := by omega
  have e9 : value / 2 ^ 48 % 256 = sequence / 2 ^ 6 % 256 := by omega
  have e10 : value / 2 ^ 40 % 256 = sequence % 64 * 4 + r10 := by omega
  have e11 : value / 2 ^ 32 % 256 = r11 := by omega
  have e12 : value / 2 ^ 24 % 256 = r12 := by omega
  have e13 : value / 2 ^ 16 % 256 = r13 := by omega
  have e14 : value / 2 ^ 8 % 256 = r14 := by omega
  have e15 : value % 256 = r15 := by omega
  simp only [Nat.reducePow] at e0 e1 e2 e3 e4 e5 e6 e7 e8 e9 e10 e11 e12 e13 e14
  simp [formatUuid, spell, idPlaces, placesValue, bytePlace, e0, e1, e2, e3, e4, e5, e6, e7, e8, e9,
    e10, e11, e12, e13,
    e14, e15]

theorem id_lt {last' sequence' : Nat} (hsequence : sequence < 2 ^ 32)
    (hsequence' : sequence' < 2 ^ 32) (hlast' : last' < 2 ^ 48)
    (hlt : last * 2 ^ 32 + sequence < last' * 2 ^ 32 + sequence') (random random' : Nat → UInt8) :
    formatUuid (uuidBytes last sequence random) < formatUuid (uuidBytes last' sequence' random') := by
  have hbits : ∀ (random : Nat → UInt8) (i : Nat), (random i).toNat < 256 :=
    fun random i => (random i).toNat_lt
  have h := hbits random
  have h' := hbits random'
  have hvalue : placesValue idPlaces = 2 ^ 122 := by decide
  have hless : idValue last sequence random < idValue last' sequence' random' ∧
      idValue last' sequence' random' < 2 ^ 122 := by
    have h11 := h 11
    have h12 := h 12
    have h13 := h 13
    have h14 := h 14
    have h15 := h 15
    have h11' := h' 11
    have h12' := h' 12
    have h13' := h' 13
    have h14' := h' 14
    have h15' := h' 15
    simp only [idValue]
    omega
  rw [formatUuid_eq hsequence, formatUuid_eq hsequence']
  refine (spell_below idPlaces_ordered hless.1 ?_).lt
  rw [hvalue, Nat.div_eq_of_lt (hless.1.trans hless.2), Nat.div_eq_of_lt hless.2]

/-! ## A run -/

/-- The time and the count, as one number. -/
def UuidState.Counts (s : UuidState) (value : Nat) : Prop :=
  ∃ last, s.lastTimestamp = some last ∧ s.sequence < 2 ^ 32 ∧ last * 2 ^ 32 + s.sequence = value

theorem drawn_lt (random : Nat → UInt8) : drawn random < 2 ^ 32 := by
  rw [drawn]
  have h6 := (random 6).toNat_lt
  have h7 := (random 7).toNat_lt
  have h8 := (random 8).toNat_lt
  have h9 := (random 9).toNat_lt
  omega

theorem UuidState.next_of_lt (hlast : s.lastTimestamp = some last) (hlt : last < c.timestamp) :
    s.next c = { lastTimestamp := some c.timestamp, sequence := drawn c.random } := by
  simp only [UuidState.next, hlast, if_pos hlt]

theorem UuidState.next_of_le (hlast : s.lastTimestamp = some last) (hle : c.timestamp ≤ last) :
    s.next c = counted last ((s.sequence + 1) % 2 ^ 32) := by
  simp only [UuidState.next, hlast, if_neg (Nat.not_lt.mpr hle)]

/-- A call that finds the clock where it was counts on. -/
theorem UuidState.Counts.next_still (hs : s.Counts value) (hstill : c.timestamp * 2 ^ 32 ≤ value) :
    (s.next c).Counts (value + 1) := by
  obtain ⟨last, hlast, hsequence, rfl⟩ := hs
  rw [s.next_of_le hlast (by omega)]
  by_cases hwrap : s.sequence + 1 = 2 ^ 32
  · rw [hwrap, Nat.mod_self]
    exact ⟨last + 1, rfl, Nat.two_pow_pos 32, by simp only [counted]; omega⟩
  · rw [Nat.mod_eq_of_lt (by omega)]
    exact ⟨last, by simp [counted], by simp only [counted]; omega, by simp only [counted]; omega⟩

/-- A call moves on, and not beyond the reading by more than one. -/
theorem UuidState.Counts.next (hs : s.Counts value) (c : UuidCall) :
    ∃ value', (s.next c).Counts value' ∧ value < value' ∧
      value' ≤ max (value + 1) (c.timestamp * 2 ^ 32 + (2 ^ 32 - 1)) := by
  by_cases hstill : c.timestamp * 2 ^ 32 ≤ value
  · exact ⟨value + 1, hs.next_still hstill, by omega, by omega⟩
  · obtain ⟨last, hlast, hsequence, rfl⟩ := hs
    have hdrawn := drawn_lt c.random
    rw [s.next_of_lt hlast (by omega)]
    exact ⟨c.timestamp * 2 ^ 32 + drawn c.random, ⟨c.timestamp, rfl, hdrawn, rfl⟩, by omega,
      by omega⟩

theorem UuidState.Counts.first (c : UuidCall) :
    (({} : UuidState).next c).Counts (c.timestamp * 2 ^ 32 + drawn c.random) :=
  ⟨c.timestamp, rfl, drawn_lt c.random, rfl⟩

/-- The bytes of an id with a greater number. -/
def IdAbove (value : Nat) (bytes : List Nat) : Prop :=
  ∃ last sequence random, bytes = uuidBytes last sequence random ∧ sequence < 2 ^ 32 ∧ last < 2 ^ 48 ∧
    value < last * 2 ^ 32 + sequence

theorem uuidRun_above (hcalls : ∀ c ∈ calls, c.timestamp < 2 ^ 48 - 1) (hs : s.Counts value)
    (hroom : value + calls.length < 2 ^ 80) (hlength : calls.length ≤ 2 ^ 32) :
    ∀ bytes ∈ uuidRun s calls, IdAbove value bytes := by
  induction calls generalizing s value with
  | nil => exact nofun
  | cons c calls ih =>
    have hc := hcalls c List.mem_cons_self
    obtain ⟨value', hnext, hless, hmax⟩ := hs.next c
    rw [List.length_cons] at hroom hlength
    intro bytes hbytes
    obtain rfl | hbytes := List.mem_cons.mp hbytes
    · obtain ⟨last, hlast, hsequence, rfl⟩ := hnext
      exact ⟨last, _, c.random, by rw [hlast]; rfl, hsequence, by omega, hless⟩
    · obtain ⟨last, sequence, random, heq, hsequence, hlast, habove⟩ :=
        ih (fun other hother => hcalls other (List.mem_cons_of_mem c hother)) hnext (by omega) (by omega) bytes hbytes
      exact ⟨last, sequence, random, heq, hsequence, hlast, hless.trans habove⟩

theorem uuidRun_cons_increasing (hcalls : ∀ c ∈ calls, c.timestamp < 2 ^ 48 - 1)
    (hnext : (s.next c).Counts value) (hroom : value + calls.length < 2 ^ 80)
    (hlength : calls.length ≤ 2 ^ 32)
    (hrest : ((uuidRun (s.next c) calls).map formatUuid).Pairwise (· < ·)) :
    ((uuidRun s (c :: calls)).map formatUuid).Pairwise (· < ·) := by
  refine List.Pairwise.cons ?_ hrest
  have habove := uuidRun_above hcalls hnext hroom hlength
  obtain ⟨last, hlast, hsequence, rfl⟩ := hnext
  intro id hid
  obtain ⟨bytes, hbytes, rfl⟩ := List.mem_map.mp hid
  obtain ⟨last', sequence', random, rfl, hsequence', hlast', hgreater⟩ := habove bytes hbytes
  rw [hlast]
  exact id_lt hsequence hsequence' hlast' hgreater c.random random

theorem uuidRun_increasing (hcalls : ∀ c ∈ calls, c.timestamp < 2 ^ 48 - 1) (hs : s.Counts value)
    (hroom : value + calls.length < 2 ^ 80) (hlength : calls.length ≤ 2 ^ 32) :
    ((uuidRun s calls).map formatUuid).Pairwise (· < ·) := by
  induction calls generalizing s value with
  | nil => exact .nil
  | cons c calls ih =>
    have hc := hcalls c List.mem_cons_self
    have hrest : ∀ other ∈ calls, other.timestamp < 2 ^ 48 - 1 :=
      fun other hother => hcalls other (List.mem_cons_of_mem c hother)
    obtain ⟨value', hnext, hless, hmax⟩ := hs.next c
    rw [List.length_cons] at hroom hlength
    exact uuidRun_cons_increasing hrest hnext (by omega) (by omega)
      (ih hrest hnext (by omega) (by omega))

theorem uuidBytes_marks (last sequence : Nat) (random : Nat → UInt8) :
    (uuidBytes last sequence random)[6]? = some (0x70 + sequence / 2 ^ 28 % 16) ∧
      (uuidBytes last sequence random)[8]? = some (0x80 + sequence / 2 ^ 14 % 64) := by
  rw [uuidBytes_eq]
  exact ⟨rfl, rfl⟩

theorem uuidRun_marked : ∀ bytes ∈ uuidRun s calls, Marked bytes := by
  induction calls generalizing s with
  | nil => exact nofun
  | cons c calls ih =>
    intro bytes hbytes
    obtain rfl | hbytes := List.mem_cons.mp hbytes
    · obtain ⟨hversion, hvariant⟩ :=
        uuidBytes_marks ((s.next c).lastTimestamp.getD 0) (s.next c).sequence c.random
      exact ⟨_, _, hversion, hvariant, by omega, by omega⟩
    · exact ih bytes hbytes

theorem uuidRun_increases {calls : List UuidCall} (hcalls : ∀ c ∈ calls, c.timestamp < 2 ^ 48 - 1)
    (hlength : calls.length ≤ 2 ^ 32 + 1) :
    ((uuidRun {} calls).map formatUuid).Pairwise (· < ·) ∧ ∀ bytes ∈ uuidRun {} calls, Marked bytes := by
  refine ⟨?_, uuidRun_marked⟩
  cases calls with
  | nil => exact .nil
  | cons c calls =>
    have hc := hcalls c List.mem_cons_self
    have hrest : ∀ other ∈ calls, other.timestamp < 2 ^ 48 - 1 :=
      fun other hother => hcalls other (List.mem_cons_of_mem c hother)
    have hfirst := UuidState.Counts.first c
    have hdrawn := drawn_lt c.random
    rw [List.length_cons] at hlength
    exact uuidRun_cons_increasing hrest hfirst (by omega) (by omega)
      (uuidRun_increasing hrest hfirst (by omega) (by omega))

/-- A clock that goes back, and one that moves on. -/
theorem uuidRun_increases_example :
    ((uuidRun {} [⟨1000, fun _ => 7⟩, ⟨999, fun _ => 9⟩, ⟨1001, fun _ => 0⟩]).map formatUuid).Pairwise (· < ·) :=
  (uuidRun_increases (by decide) (by decide)).1

/-! ## More ids than the count has values -/

theorem uuidRun_append (s : UuidState) (calls rest : List UuidCall) :
    uuidRun s (calls ++ rest) = uuidRun s calls ++ uuidRun (calls.foldl UuidState.next s) rest := by
  induction calls generalizing s with
  | nil => rfl
  | cons c calls ih => rw [List.cons_append, uuidRun, ih, uuidRun, List.foldl_cons, List.cons_append]

theorem UuidState.Counts.stalled (hs : s.Counts value) (hstill : c.timestamp * 2 ^ 32 ≤ value)
    (n : Nat) : ((List.replicate n c).foldl UuidState.next s).Counts (value + n) := by
  induction n generalizing s value with
  | zero => exact hs
  | succ n ih =>
    rw [List.replicate_succ, List.foldl_cons, Nat.add_comm n 1, ← Nat.add_assoc]
    exact ih (hs.next_still hstill) (by omega)

/-- A number says where the time and the count are. -/
theorem UuidState.Counts.eq (hs : s.Counts (last * 2 ^ 32 + sequence))
    (hsequence : sequence < 2 ^ 32) : s = { lastTimestamp := some last, sequence } := by
  obtain ⟨last', hlast, hsequence', heq⟩ := hs
  obtain ⟨rfl, hcount⟩ : last' = last ∧ s.sequence = sequence := by omega
  rw [← hcount, ← hlast]

/-- The last millisecond that is read, and the greatest count. -/
def lastCall : UuidCall := ⟨2 ^ 48 - 2, fun _ => 255⟩

/-- The clock stands still; the time of the last id has 49 bits, which are cut. -/
theorem uuid_overflows :
    ¬ ∀ calls : List UuidCall, (∀ c ∈ calls, c.timestamp < 2 ^ 48 - 1) →
      ((uuidRun {} calls).map formatUuid).Pairwise (· < ·) := by
  intro hall
  have hrun := hall (lastCall :: (List.replicate (2 ^ 32 - 1) lastCall ++ [lastCall, lastCall])) (by
    intro c hc
    have hc : c = lastCall := by
      simp only [List.mem_cons, List.mem_append, List.mem_replicate, List.not_mem_nil,
        or_false] at hc
      tauto
    rw [hc]
    decide)
  have hstill : lastCall.timestamp * 2 ^ 32 ≤ lastCall.timestamp * 2 ^ 32 + drawn lastCall.random :=
    Nat.le_add_right _ _
  have hstalled := (UuidState.Counts.first lastCall).stalled hstill (2 ^ 32 - 1)
  have hbefore : lastCall.timestamp * 2 ^ 32 + drawn lastCall.random + (2 ^ 32 - 1) =
      (2 ^ 48 - 1) * 2 ^ 32 + (2 ^ 32 - 2) := by
    decide
  rw [hbefore] at hstalled
  have hstate := hstalled.eq (by decide)
  rw [uuidRun, uuidRun_append, hstate, List.map_cons, List.map_append] at hrun
  have htail := (List.pairwise_append.mp (List.pairwise_cons.mp hrun).2).2.1
  exact absurd htail (by decide)

end PieLab.Uuid
