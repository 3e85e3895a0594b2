import Mathlib.Algebra.GroupWithZero.Nat
import Mathlib.Data.List.Basic

/-
  Texts as bytes — a library

  A text is a list of characters, its bytes are their encodings one behind the
  other. A decoder reads a byte stream in chunks: it hands out the characters that
  are complete and keeps the bytes of the next one.

  What is proved:
    1. `decode_append` — reading a stream in two parts.
    2. `pieces_flatten` — the pieces of a stream make up its text, however the
       stream is cut.
    3. `drop_boundary_encode` — the bytes from the first boundary behind a point
       are those of a text.

  Malformed bytes are left out: the decoder waits at them.
-/

namespace PieLab.Lib

def encode (text : List Char) : List UInt8 := text.flatMap String.utf8EncodeChar

def byteLength (text : List Char) : Nat := (text.map Char.utf8Size).sum

@[simp] theorem encode_nil : encode [] = [] := rfl

@[simp] theorem encode_cons (c : Char) (cs : List Char) :
    encode (c :: cs) = String.utf8EncodeChar c ++ encode cs := rfl

@[simp] theorem encode_append (l r : List Char) : encode (l ++ r) = encode l ++ encode r :=
  List.flatMap_append

@[simp] theorem byteLength_nil : byteLength [] = 0 := rfl

@[simp] theorem byteLength_cons (c : Char) (cs : List Char) :
    byteLength (c :: cs) = c.utf8Size + byteLength cs := by
  simp [byteLength]

@[simp] theorem byteLength_append (l r : List Char) :
    byteLength (l ++ r) = byteLength l + byteLength r := by
  simp [byteLength]

@[simp] theorem length_encode (l : List Char) : (encode l).length = byteLength l := by
  induction l with
  | nil => rfl
  | cons c cs ih => simp [ih]

variable {l : List Char} {bytes rest : List UInt8} {c : Char} {n : Nat}

theorem byteLength_eq_zero : byteLength l = 0 ↔ l = [] := by
  cases l with
  | nil => simp
  | cons c cs =>
    have hpos := c.utf8Size_pos
    simp
    omega

/-! ## Decoding -/

/-- The first character, if its bytes are all there, and what follows it. -/
def decodeChar (bytes : List UInt8) : Option (Char × List UInt8) :=
  (bytes.toByteArray.utf8DecodeChar? 0).map fun c => (c, bytes.drop c.utf8Size)

theorem decodeChar_encode (c : Char) (rest : List UInt8) :
    decodeChar (String.utf8EncodeChar c ++ rest) = some (c, rest) := by
  unfold decodeChar
  rw [List.toByteArray_append, ByteArray.utf8DecodeChar?_utf8EncodeChar_append]
  simp

theorem decodeChar_sound (h : decodeChar bytes = some (c, rest)) :
    bytes = String.utf8EncodeChar c ++ rest := by
  unfold decodeChar at h
  obtain ⟨d, hd, heq⟩ := Option.map_eq_some_iff.mp h
  obtain ⟨rfl, rfl⟩ := Prod.mk.inj heq
  obtain ⟨tail, htail⟩ := ByteArray.exists_of_utf8DecodeChar?_eq_some hd
  have hbytes : bytes = String.utf8EncodeChar d ++ tail.data.toList := by
    rw [← List.toByteArray_inj, List.toByteArray_append, htail]
    congr 1
    apply ByteArray.ext
    simp
  rw [hbytes]
  simp

theorem decodeChar_append (h : decodeChar bytes = some (c, rest)) (more : List UInt8) :
    decodeChar (bytes ++ more) = some (c, rest ++ more) := by
  rw [decodeChar_sound h, List.append_assoc, decodeChar_encode]

/-- The characters that are complete, and the bytes behind them. -/
def decode (bytes : List UInt8) : List Char × List UInt8 :=
  match _h : decodeChar bytes with
  | none => ([], bytes)
  | some (c, rest) => (c :: (decode rest).1, (decode rest).2)
termination_by bytes.length
decreasing_by
  all_goals
    have hpos := c.utf8Size_pos
    have hlength := congrArg List.length (decodeChar_sound _h)
    simp at hlength
    omega

theorem decode_of_none (h : decodeChar bytes = none) : decode bytes = ([], bytes) := by
  rw [decode]
  split
  · rfl
  · rename_i heq
    rw [h] at heq
    cases heq

theorem decode_of_some (h : decodeChar bytes = some (c, rest)) :
    decode bytes = (c :: (decode rest).1, (decode rest).2) := by
  rw [decode]
  split
  · rename_i heq
    rw [h] at heq
    cases heq
  · rename_i c' rest' heq
    rw [h] at heq
    cases heq
    rfl

theorem decode_sound (bytes : List UInt8) :
    bytes = encode (decode bytes).1 ++ (decode bytes).2 := by
  induction bytes using decode.induct with
  | case1 bytes h =>
    rw [decode_of_none h]
    rfl
  | case2 bytes c rest h ih =>
    rw [decode_of_some h]
    simp only [encode_cons]
    rw [List.append_assoc, ← ih]
    exact decodeChar_sound h

theorem decode_rest (bytes : List UInt8) : decodeChar (decode bytes).2 = none := by
  induction bytes using decode.induct with
  | case1 bytes h =>
    rw [decode_of_none h]
    exact h
  | case2 bytes c rest h ih =>
    rw [decode_of_some h]
    exact ih

/-- Reading a stream in two parts: the bytes left by the first go in front of the second. -/
theorem decode_append (x y : List UInt8) :
    decode (x ++ y) =
      ((decode x).1 ++ (decode ((decode x).2 ++ y)).1, (decode ((decode x).2 ++ y)).2) := by
  induction x using decode.induct with
  | case1 bytes h =>
    rw [decode_of_none h]
    simp
  | case2 bytes c rest h ih =>
    rw [decode_of_some h, decode_of_some (decodeChar_append h y), ih]
    simp

@[simp] theorem decode_encode (text : List Char) : decode (encode text) = (text, []) := by
  induction text with
  | nil => exact decode_of_none rfl
  | cons c cs ih => rw [encode_cons, decode_of_some (decodeChar_encode c _), ih]

/-! ## A stream in chunks -/

/-- A text without the byte order mark in front. -/
def withoutBom : List Char → List Char
  | '\uFEFF' :: cs => cs
  | cs => cs

/-- A streaming decoder: the bytes it waits with, and whether it has handed out a character. -/
structure TextDecoder where
  pending : List UInt8
  bomSeen : Bool

namespace TextDecoder

def new : TextDecoder := { pending := [], bomSeen := false }

def textOf (d : TextDecoder) (chars : List Char) : List Char :=
  if d.bomSeen then chars else withoutBom chars

/-- `decoder.decode(data, { stream: true })` -/
def decode (d : TextDecoder) (data : List UInt8) : List Char × TextDecoder :=
  let (chars, rest) := Lib.decode (d.pending ++ data)
  (d.textOf chars, { pending := rest, bomSeen := d.bomSeen || !chars.isEmpty })

/-- `decoder.decode()`: a character that was cut off is replaced. -/
def flush (d : TextDecoder) : List Char := if d.pending.isEmpty then [] else ['\uFFFD']

/-- The texts handed out for a stream, the last one by the end of it. -/
def pieces (d : TextDecoder) : List (List UInt8) → List (List Char)
  | [] => [d.flush]
  | chunk :: chunks => (d.decode chunk).1 :: (d.decode chunk).2.pieces chunks

theorem textOf_append (d : TextDecoder) (l r : List Char) (rest : List UInt8) :
    d.textOf (l ++ r) = d.textOf l ++
      ({ pending := rest, bomSeen := d.bomSeen || !l.isEmpty } : TextDecoder).textOf r := by
  unfold textOf
  cases d.bomSeen with
  | true => rfl
  | false =>
    cases l with
    | nil => rfl
    | cons c cs =>
      simp only [List.cons_append, List.isEmpty_cons, Bool.not_false, Bool.or_true, if_true,
        Bool.false_eq_true, if_false]
      by_cases hc : c = '\uFEFF'
      · rw [hc]
        rfl
      · unfold withoutBom
        split
        · rename_i heq
          exact absurd (List.cons.inj heq).1 hc
        · split
          · rename_i heq
            exact absurd (List.cons.inj heq).1 hc
          · rfl

theorem pieces_flatten_from (d : TextDecoder) {chunks : List (List UInt8)} {text : List Char}
    (hwait : decodeChar d.pending = none) (h : d.pending ++ chunks.flatten = encode text) :
    (d.pieces chunks).flatten = d.textOf text := by
  induction chunks generalizing d text with
  | nil =>
    rw [List.flatten_nil, List.append_nil] at h
    cases text with
    | nil =>
      have hflush : d.flush = [] := by
        unfold flush
        rw [h]
        rfl
      unfold pieces textOf
      rw [hflush]
      cases d.bomSeen <;> rfl
    | cons c cs =>
      rw [h, encode_cons, decodeChar_encode] at hwait
      cases hwait
  | cons chunk chunks ih =>
    rw [List.flatten_cons, ← List.append_assoc] at h
    -- what is read now and what is read later
    have hsplit := decode_append (d.pending ++ chunk) chunks.flatten
    rw [h, decode_encode] at hsplit
    obtain ⟨htext, hend⟩ := Prod.mk.inj hsplit
    have hlater := decode_sound ((Lib.decode (d.pending ++ chunk)).2 ++ chunks.flatten)
    rw [← hend, List.append_nil] at hlater
    have hrest := ih (d.decode chunk).2 (decode_rest _) hlater
    unfold pieces
    rw [List.flatten_cons, hrest, htext]
    exact (d.textOf_append _ _ _).symm

/-- The pieces of a stream make up its text, however the stream is cut. -/
theorem pieces_flatten {chunks : List (List UInt8)} {text : List Char}
    (h : chunks.flatten = encode text) : (new.pieces chunks).flatten = withoutBom text :=
  pieces_flatten_from new rfl h

theorem pieces_single (text : List Char) : new.pieces [encode text] = [withoutBom text, []] := by
  have hdecode : new.decode (encode text) =
      (withoutBom text, { pending := [], bomSeen := !text.isEmpty }) := by
    unfold decode
    simp [new, textOf]
  unfold pieces
  rw [hdecode]
  rfl

end TextDecoder

/-! ## Character boundaries -/

/-- `(byte & 0xc0) === 0x80` -/
def isContinuation (byte : UInt8) : Bool := byte &&& 0xC0 = 0x80

/-- The first point from `start` on where a character begins:
`while (start < buffer.length && (buffer[start] & 0xc0) === 0x80) start++` -/
def boundaryFrom (buffer : List UInt8) (start : Nat) : Nat :=
  start + ((buffer.drop start).takeWhile isContinuation).length

/-- The characters of a text that begin at `n` bytes or behind. -/
def dropBytes : Nat → List Char → List Char
  | 0, text => text
  | _ + 1, [] => []
  | n + 1, c :: cs => dropBytes (n + 1 - c.utf8Size) cs

@[simp] theorem dropBytes_zero (text : List Char) : dropBytes 0 text = text := by
  cases text <;> rfl

theorem drop_boundaryFrom (buffer : List UInt8) (start : Nat) :
    buffer.drop (boundaryFrom buffer start) = (buffer.drop start).dropWhile isContinuation := by
  have hsplit := List.takeWhile_append_dropWhile (p := isContinuation) (l := buffer.drop start)
  have hdrop := congrArg (List.drop ((buffer.drop start).takeWhile isContinuation).length) hsplit
  rw [List.drop_left] at hdrop
  unfold boundaryFrom
  rw [← List.drop_drop, hdrop]

theorem forall_byte {P : UInt8 → Prop} (h : ∀ n : Fin 256, P (UInt8.ofNat n)) (byte : UInt8) :
    P byte := by
  have hbyte := h ⟨byte.toNat, byte.toNat_lt⟩
  simpa using hbyte

theorem isContinuation_low (byte : UInt8) : isContinuation (byte &&& 0x3F ||| 0x80) = true := by
  apply forall_byte (P := fun byte => isContinuation (byte &&& 0x3F ||| 0x80) = true)
  decide +kernel

theorem isContinuation_first (byte : UInt8) :
    (byte.toNat < 128 → isContinuation byte = false) ∧
      isContinuation (byte &&& 0x1F ||| 0xC0) = false ∧
      isContinuation (byte &&& 0x0F ||| 0xE0) = false ∧
      isContinuation (byte &&& 0x07 ||| 0xF0) = false := by
  apply forall_byte (P := fun byte => (byte.toNat < 128 → isContinuation byte = false) ∧
      isContinuation (byte &&& 0x1F ||| 0xC0) = false ∧
      isContinuation (byte &&& 0x0F ||| 0xE0) = false ∧
      isContinuation (byte &&& 0x07 ||| 0xF0) = false)
  decide +kernel

theorem toNat_toUInt8 (h : c.utf8Size = 1) : c.val.toUInt8.toNat = c.toNat ∧ c.toNat < 128 := by
  have hle : c.toNat ≤ 127 := Char.utf8Size_eq_one_iff.mp h
  refine ⟨?_, by omega⟩
  show c.toNat % 256 = c.toNat
  omega

theorem exists_utf8EncodeChar (c : Char) :
    ∃ first more, String.utf8EncodeChar c = first :: more ∧ isContinuation first = false ∧
      ∀ byte ∈ more, isContinuation byte = true := by
  rcases c.utf8Size_eq with h | h | h | h
  · have hlow : c.val.toUInt8.toNat < 128 := by
      obtain ⟨heq, hlt⟩ := toNat_toUInt8 h
      omega
    exact ⟨_, [], String.utf8EncodeChar_eq_singleton h, (isContinuation_first _).1 hlow, by simp⟩
  · exact ⟨_, _, String.utf8EncodeChar_eq_cons_cons h, (isContinuation_first _).2.1,
      by simp [isContinuation_low]⟩
  · exact ⟨_, _, String.utf8EncodeChar_eq_cons_cons_cons h, (isContinuation_first _).2.2.1,
      by simp [isContinuation_low]⟩
  · exact ⟨_, _, String.utf8EncodeChar_eq_cons_cons_cons_cons h, (isContinuation_first _).2.2.2,
      by simp [isContinuation_low]⟩

/-- The bytes from the first boundary on are those of the characters that begin there. -/
theorem drop_boundary_encode (text : List Char) (n : Nat) :
    (encode text).drop (boundaryFrom (encode text) n) = encode (dropBytes n text) := by
  rw [drop_boundaryFrom]
  induction text generalizing n with
  | nil => cases n <;> rfl
  | cons c cs ih =>
    obtain ⟨first, more, hc, hfirst, hmore⟩ := exists_utf8EncodeChar c
    have hsize : c.utf8Size = more.length + 1 := by
      rw [← String.length_utf8EncodeChar, hc, List.length_cons]
    cases n with
    | zero =>
      show ((encode (c :: cs)).dropWhile isContinuation) = _
      rw [encode_cons, hc, List.cons_append, List.dropWhile_cons, hfirst]
      unfold dropBytes
      rw [encode_cons, hc]
      rfl
    | succ n =>
      have hdrop : (encode (c :: cs)).drop (n + 1) =
          more.drop n ++ (encode cs).drop (n - more.length) := by
        rw [encode_cons, hc, List.cons_append, List.drop_succ_cons, List.drop_append]
      have hskip : ((encode (c :: cs)).drop (n + 1)).dropWhile isContinuation =
          ((encode cs).drop (n - more.length)).dropWhile isContinuation := by
        rw [hdrop, List.dropWhile_append_of_pos]
        intro byte hbyte
        exact hmore byte (List.mem_of_mem_drop hbyte)
      have hn : n + 1 - c.utf8Size = n - more.length := by omega
      rw [hskip, ih]
      show _ = encode (dropBytes (n + 1 - c.utf8Size) cs)
      rw [hn]

theorem boundaryFrom_encode (text : List Char) (h : n ≤ byteLength text) :
    boundaryFrom (encode text) n + byteLength (dropBytes n text) = byteLength text := by
  have hdrop := congrArg List.length (drop_boundary_encode text n)
  have htake := (List.takeWhile_sublist (l := (encode text).drop n) isContinuation).length_le
  have hle : boundaryFrom (encode text) n ≤ byteLength text := by
    rw [List.length_drop, length_encode] at htake
    unfold boundaryFrom
    omega
  rw [List.length_drop, length_encode, length_encode] at hdrop
  omega

theorem dropBytes_split (text : List Char) {n : Nat} (h : n ≤ byteLength text) :
    ∃ front, text = front ++ dropBytes n text ∧ n ≤ byteLength front ∧
      ∀ c, front.getLast? = some c → byteLength front < n + c.utf8Size := by
  induction text generalizing n with
  | nil =>
    obtain rfl : n = 0 := by simpa using h
    exact ⟨[], rfl, Nat.zero_le _, fun c hc => (nomatch hc)⟩
  | cons c cs ih =>
    cases n with
    | zero => exact ⟨[], rfl, Nat.zero_le _, fun c hc => (nomatch hc)⟩
    | succ n =>
      have hdrop : dropBytes (n + 1) (c :: cs) = dropBytes (n + 1 - c.utf8Size) cs := rfl
      rw [hdrop]
      rw [byteLength_cons] at h
      by_cases hn : n + 1 ≤ c.utf8Size
      · have hzero : n + 1 - c.utf8Size = 0 := by omega
        rw [hzero, dropBytes_zero]
        refine ⟨[c], rfl, by simpa using hn, fun d hd => ?_⟩
        obtain rfl := Option.some.inj hd
        simp
      · obtain ⟨front, hcs, hle, hlast⟩ := @ih (n + 1 - c.utf8Size) (by omega)
        refine ⟨c :: front, by rw [List.cons_append, ← hcs], by simp; omega, fun d hd => ?_⟩
        cases front with
        | nil =>
          obtain rfl := Option.some.inj hd
          simp
        | cons e es =>
          have hlt := hlast d (by simpa using hd)
          rw [byteLength_cons]
          omega

theorem getLast?_encode_newline (text : List Char) :
    (encode text).getLast? = some 0x0A ↔ text.getLast? = some '\n' := by
  rcases List.eq_nil_or_concat' text with rfl | ⟨l, c, rfl⟩
  · simp
  · obtain ⟨first, more, hc, hfirst, hmore⟩ := exists_utf8EncodeChar c
    have hne : String.utf8EncodeChar c ≠ [] := by
      rw [hc]
      simp
    have hlast : (encode (l ++ [c])).getLast? = (String.utf8EncodeChar c).getLast? := by
      rw [encode_append, encode_cons, encode_nil, List.append_nil,
        List.getLast?_append_of_ne_nil _ hne]
    rw [hlast, List.getLast?_concat, Option.some_inj]
    cases more with
    | nil =>
      have hsize : c.utf8Size = 1 := by rw [← String.length_utf8EncodeChar, hc]; rfl
      obtain ⟨hbyte, -⟩ := toNat_toUInt8 hsize
      rw [String.utf8EncodeChar_eq_singleton hsize]
      show some c.val.toUInt8 = some 0x0A ↔ _
      rw [Option.some_inj, ← UInt8.toNat_inj, hbyte, ← Char.toNat_inj]
      rfl
    | cons second rest =>
      -- the last byte of a longer character is a continuation
      constructor
      · intro h
        rw [hc, List.getLast?_cons_cons] at h
        have hbad := hmore _ (List.mem_of_getLast? h)
        exact absurd hbad (by decide)
      · rintro rfl
        have hnewline : String.utf8EncodeChar '\n' = [0x0A] := by decide
        rw [hnewline] at hc
        cases hc

theorem dropBytes_append (h : byteLength l ≤ n) (r : List Char) :
    dropBytes n (l ++ r) = dropBytes (n - byteLength l) r := by
  induction l generalizing n with
  | nil => rfl
  | cons c cs ih =>
    rw [byteLength_cons] at h
    have hpos := c.utf8Size_pos
    cases n with
    | zero => omega
    | succ n =>
      have hsub : n + 1 - c.utf8Size - byteLength cs = n + 1 - byteLength (c :: cs) := by
        rw [byteLength_cons]
        omega
      rw [← hsub, ← ih (by omega)]
      rfl

theorem dropBytes_last (hlt : byteLength l < n) (hle : n ≤ byteLength l + c.utf8Size)
    (r : List Char) : dropBytes n (l ++ c :: r) = r := by
  rw [dropBytes_append (Nat.le_of_lt hlt)]
  cases hn : n - byteLength l with
  | zero => omega
  | succ k =>
    have hzero : k + 1 - c.utf8Size = 0 := by omega
    show dropBytes (k + 1 - c.utf8Size) r = r
    rw [hzero, dropBytes_zero]

theorem dropBytes_eq_nil (hn : n < byteLength (l ++ [c])) :
    dropBytes (byteLength (l ++ [c]) - n) (l ++ [c]) = [] ↔ n < c.utf8Size := by
  have hlength : byteLength (l ++ [c]) = byteLength l + c.utf8Size := by simp
  constructor
  · intro h
    by_contra hle
    obtain ⟨front, hfront, -, hlast⟩ :=
      dropBytes_split (l ++ [c]) (Nat.sub_le (byteLength (l ++ [c])) n)
    rw [h, List.append_nil] at hfront
    have hlt := hlast c (by rw [← hfront, List.getLast?_concat])
    rw [← hfront] at hlt
    omega
  · intro h
    exact dropBytes_last (by omega) (by omega) []

end PieLab.Lib
