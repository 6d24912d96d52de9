import StingFlashbots.Encoding.BigEndian

/-
  Recursive length prefix encoding.

  An item is a byte string or a list of items. The encoder
  follows the standard; it is meaningful on `Encodable`
  items, those whose payloads are shorter than `256 ^ 8`
  bytes, and an implementation rejects the others. The
  decoder is strict: it accepts canonical encodings only.

  Key definitions include:
    * `RLP.Item`
    * `RLP.encode`
    * `RLP.Item.Encodable`
    * `RLP.decode`

  Key results include:
    * `RLP.decode_encode`
    * `RLP.encode_of_decode`
    * `RLP.encode_append_inj`
    * `RLP.encode_int_append_inj`
-/

namespace RLP

------------------------------------------------------------
-- Items
------------------------------------------------------------

/- A byte string or a list of items. -/
inductive Item where
| str : Bytes → Item
| list : List Item → Item
deriving Repr

namespace Item

mutual

/- Equality of items is decidable. -/
def decEq : (x y : Item) → Decidable (x = y)
| .str a, .str b =>
    if h : a = b then
      isTrue (by rw [h])
    else
      isFalse (by simpa using h)
| .str _, .list _ => isFalse (by simp)
| .list _, .str _ => isFalse (by simp)
| .list xs, .list ys =>
    match decEqList xs ys with
    | isTrue h => isTrue (by rw [h])
    | isFalse h => isFalse (by simpa using h)

def decEqList :
    (xs ys : List Item) → Decidable (xs = ys)
| [], [] => isTrue rfl
| [], _ :: _ => isFalse (by simp)
| _ :: _, [] => isFalse (by simp)
| x :: xs, y :: ys =>
    match decEq x y, decEqList xs ys with
    | isTrue hHead, isTrue hTail =>
        isTrue (by rw [hHead, hTail])
    | isFalse hHead, _ => isFalse (by simp [hHead])
    | _, isFalse hTail => isFalse (by simp [hTail])

end

instance : DecidableEq Item := decEq

/- Items are built from byte strings and lists. -/
@[induction_eliminator]
theorem induct
    {P : Item → Prop}
    (str : ∀ b, P (.str b))
    (list : ∀ xs, (∀ x ∈ xs, P x) → P (.list xs)) :
    ∀ x, P x := by
  intro x
  refine @Item.rec P (fun xs => ∀ x ∈ xs, P x)
    str list ?_ ?_ x
  · intro x hx
    simp at hx
  · intro head tail hHead hTail x hx
    rcases List.mem_cons.mp hx with rfl | hx
    · exact hHead
    · exact hTail x hx

end Item

------------------------------------------------------------
-- Encoding
------------------------------------------------------------

/- The prefix announcing a payload of the given length. -/
def lengthPrefix
    (offset length : Nat) : Bytes :=
  if length < 56 then
    [UInt8.ofNat (offset + length)]
  else
    UInt8.ofNat
        (offset + 55 + (BigEndian.encode length).length) ::
      BigEndian.encode length

/- Small single bytes are their own encoding. -/
def encodeStr : Bytes → Bytes
| [x] =>
    if x < 0x80 then [x] else lengthPrefix 0x80 1 ++ [x]
| b => lengthPrefix 0x80 b.length ++ b

mutual

def encode : Item → Bytes
| .str b => encodeStr b
| .list xs =>
    lengthPrefix 0xc0 (encodeList xs).length ++
      encodeList xs

def encodeList : List Item → Bytes
| [] => []
| x :: xs => encode x ++ encodeList xs

end

/- The item of a natural number. -/
def int (n : Nat) : Item :=
  .str (BigEndian.encode n)

mutual

/- Payload lengths fit the eight length bytes. -/
def Item.Encodable : Item → Prop
| .str b => b.length < 256 ^ 8
| .list xs =>
    (encodeList xs).length < 256 ^ 8 ∧
      AllEncodable xs

def AllEncodable : List Item → Prop
| [] => True
| x :: xs => x.Encodable ∧ AllEncodable xs

end

mutual

def decEncodable : (x : Item) → Decidable x.Encodable
| .str b =>
    inferInstanceAs (Decidable (b.length < 256 ^ 8))
| .list xs =>
    haveI := decAllEncodable xs
    inferInstanceAs
      (Decidable ((encodeList xs).length < 256 ^ 8 ∧
        AllEncodable xs))

def decAllEncodable :
    (xs : List Item) → Decidable (AllEncodable xs)
| [] => isTrue trivial
| x :: xs =>
    haveI := decEncodable x
    haveI := decAllEncodable xs
    inferInstanceAs
      (Decidable (x.Encodable ∧ AllEncodable xs))

end

instance (x : Item) : Decidable x.Encodable :=
  decEncodable x

@[simp] theorem allEncodable_iff
    (xs : List Item) :
    AllEncodable xs ↔ ∀ x ∈ xs, x.Encodable := by
  induction xs with
  | nil => simp [AllEncodable]
  | cons x xs ih => simp [AllEncodable, ih]

/- Members of an encodable list are encodable. -/
theorem Item.Encodable.of_mem
    {xs : List Item}
    {x : Item}
    (hList : (Item.list xs).Encodable)
    (hx : x ∈ xs) :
    x.Encodable := by
  have hAll : AllEncodable xs := hList.2
  exact (allEncodable_iff xs).mp hAll x hx

theorem lengthPrefix_ne_nil
    (offset length : Nat) :
    lengthPrefix offset length ≠ [] := by
  unfold lengthPrefix
  split <;> simp

/- No encoding is empty. -/
theorem encode_ne_nil
    (x : Item) :
    encode x ≠ [] := by
  cases x with
  | str b =>
      unfold encode encodeStr
      split
      · split <;> simp
      · simp [lengthPrefix_ne_nil]
  | list xs =>
      simp [encode, lengthPrefix_ne_nil]

theorem encode_length_pos
    (x : Item) :
    0 < (encode x).length :=
  List.length_pos_of_ne_nil (encode_ne_nil x)

/- The length of a list of encodings. -/
theorem length_encodeList
    (xs : List Item) :
    (encodeList xs).length =
      (xs.map fun x => (encode x).length).sum := by
  induction xs with
  | nil => rfl
  | cons x xs ih => simp [encodeList, ih]

/- A list is longer than its payload. -/
theorem length_encodeList_lt
    (xs : List Item) :
    (encodeList xs).length < (encode (.list xs)).length := by
  have hPrefix := List.length_pos_of_ne_nil
    (lengthPrefix_ne_nil 0xc0 (encodeList xs).length)
  simp only [encode, List.length_append]
  omega

theorem length_lengthPrefix_of_lt
    {length : Nat}
    (hShort : length < 56)
    (offset : Nat) :
    (lengthPrefix offset length).length = 1 := by
  simp [lengthPrefix, hShort]

/- The two forms of an encoded byte string. -/
theorem encodeStr_eq
    (b : Bytes) :
    (∃ x, b = [x] ∧ x < 0x80 ∧ encodeStr b = [x]) ∨
      ((∀ x, b = [x] → ¬ x < 0x80) ∧
        encodeStr b = lengthPrefix 0x80 b.length ++ b) := by
  match b with
  | [] => exact Or.inr ⟨by simp, rfl⟩
  | [x] =>
      by_cases hx : x < 0x80
      · exact Or.inl ⟨x, rfl, hx, by simp [encodeStr, hx]⟩
      · refine Or.inr ⟨?_, by simp [encodeStr, hx]⟩
        intro y hy
        simpa [← List.singleton_inj.mp hy] using hx
  | x :: y :: b => exact Or.inr ⟨by simp, rfl⟩

/- Longer byte strings start with a prefix byte. -/
theorem encode_str_of_two_le
    {b : Bytes}
    (hTwo : 2 ≤ b.length)
    (hFit : (Item.str b).Encodable) :
    ∃ x rest, encode (.str b) = x :: rest ∧
      0x80 ≤ x.toNat := by
  rcases encodeStr_eq b with
    ⟨x, rfl, _, _⟩ | ⟨_, hEnc⟩
  · simp at hTwo
  · by_cases hShort : b.length < 56
    · refine ⟨UInt8.ofNat (0x80 + b.length), b, ?_, ?_⟩
      · simp only [encode, hEnc, lengthPrefix,
          if_pos hShort, List.cons_append, List.nil_append]
      · rw [UInt8.toNat_ofNat']
        omega
    · have hLe :
          (BigEndian.encode b.length).length ≤ 8 :=
        (BigEndian.length_encode_le_iff b.length 8).mpr hFit
      refine
        ⟨UInt8.ofNat
            (0x80 + 55 + (BigEndian.encode b.length).length),
          BigEndian.encode b.length ++ b, ?_, ?_⟩
      · simp only [encode, hEnc, lengthPrefix,
          if_neg hShort, List.cons_append]
      · rw [UInt8.toNat_ofNat']
        omega

/- A string of two bytes or more gets a length in front. -/
theorem encode_str_eq_of_two_le
    {b : Bytes}
    (hTwo : 2 ≤ b.length) :
    encode (.str b) = lengthPrefix 0x80 b.length ++ b := by
  rcases encodeStr_eq b with ⟨x, rfl, _, _⟩ | ⟨_, hEnc⟩
  · simp at hTwo
  · exact hEnc

------------------------------------------------------------
-- Strict Decoding
------------------------------------------------------------

/- What a prefix announces: the kind, the payload length
and the bytes from the payload on. -/
structure Announced where
  isList : Bool
  length : Nat
  rest : Bytes

/- A long length prefix is minimal and really long. -/
def consumeLongLength
    (isList : Bool)
    (lengthOfLength : Nat)
    (bs : Bytes) : Option Announced :=
  let digits := bs.take lengthOfLength
  if bs.length < lengthOfLength then
    none
  else if digits.head? = some 0 then
    none
  else if BigEndian.decode digits < 56 then
    none
  else
    some
      { isList := isList
        length := BigEndian.decode digits
        rest := bs.drop lengthOfLength }

/- Read the prefix of the item at the front. -/
def consumeLengthPrefix : Bytes → Option Announced
| [] => none
| x :: bs =>
    if x.toNat < 0x80 then
      some ⟨false, 1, x :: bs⟩
    else if x.toNat < 0xb8 then
      if x.toNat = 0x81 ∧
          (bs.head?.any fun y => y < 0x80) then
        none
      else
        some ⟨false, x.toNat - 0x80, bs⟩
    else if x.toNat < 0xc0 then
      consumeLongLength false (x.toNat - 0xb7) bs
    else if x.toNat < 0xf8 then
      some ⟨true, x.toNat - 0xc0, bs⟩
    else
      consumeLongLength true (x.toNat - 0xf7) bs

mutual

/- Read the item at the front. -/
def consumeItem :
    Nat → Bytes → Option (Item × Bytes)
| 0, _ => none
| fuel + 1, bs =>
    match consumeLengthPrefix bs with
    | none => none
    | some ⟨isList, length, rest⟩ =>
        if rest.length < length then
          none
        else if isList then
          match consumeItems fuel (rest.take length) with
          | none => none
          | some xs => some (.list xs, rest.drop length)
        else
          some (.str (rest.take length), rest.drop length)

/- Read items until nothing is left. -/
def consumeItems : Nat → Bytes → Option (List Item)
| 0, _ => none
| _ + 1, [] => some []
| fuel + 1, x :: bs =>
    match consumeItem fuel (x :: bs) with
    | none => none
    | some (item, rest) =>
        match consumeItems fuel rest with
        | none => none
        | some items => some (item :: items)

end

/- Decode a byte string that holds exactly one item. -/
def decode (bs : Bytes) : Option Item :=
  match consumeItem (2 * bs.length + 1) bs with
  | some (x, []) => some x
  | _ => none

------------------------------------------------------------
-- Prefixes
------------------------------------------------------------

/- The prefix offset of each kind of item. -/
def kindOffset (isList : Bool) : Nat :=
  if isList then 0xc0 else 0x80

private theorem consumeLongLength_encode
    (isList : Bool)
    {n : Nat}
    (hLong : 56 ≤ n)
    (bs : Bytes) :
    consumeLongLength isList
        (BigEndian.encode n).length
        (BigEndian.encode n ++ bs) =
      some ⟨isList, n, bs⟩ := by
  have hLt : ¬ n < 56 := by omega
  have hHead : ¬ (BigEndian.encode n).head? = some 0 :=
    BigEndian.head?_encode n
  simp only [consumeLongLength, List.take_left,
    List.drop_left, BigEndian.decode_encode,
    List.length_append]
  rw [if_neg (by omega), if_neg hHead, if_neg hLt]

private theorem consumeLongLength_some
    {isList : Bool}
    {k : Nat}
    {bs : Bytes}
    {a : Announced}
    (hRead : consumeLongLength isList k bs = some a) :
    56 ≤ a.length ∧
      (BigEndian.encode a.length).length = k ∧
      a.isList = isList ∧
      bs = BigEndian.encode a.length ++ a.rest := by
  unfold consumeLongLength at hRead
  simp only at hRead
  split at hRead
  · cases hRead
  · rename_i hLong
    split at hRead
    · cases hRead
    · rename_i hHead
      split at hRead
      · cases hRead
      · rename_i hBig
        cases hRead
        have hDigits :
            BigEndian.encode
                (BigEndian.decode (bs.take k)) =
              bs.take k :=
          BigEndian.encode_decode hHead
        refine ⟨by simp only; omega, ?_, rfl, ?_⟩
        · simp only [hDigits, List.length_take]
          omega
        · simp only [hDigits, List.take_append_drop]

private theorem toNat_ofNat_of_lt
    {n : Nat}
    (hLt : n < 256) :
    (UInt8.ofNat n).toNat = n := by
  simpa using hLt

/- A long length takes between one and eight bytes. -/
theorem lengthOfLength_bounds
    {n : Nat}
    (hLong : 56 ≤ n)
    (hFit : n < 256 ^ 8) :
    1 ≤ (BigEndian.encode n).length ∧
      (BigEndian.encode n).length ≤ 8 := by
  constructor
  · by_contra hZero
    have hLe : (BigEndian.encode n).length ≤ 0 := by omega
    rw [BigEndian.length_encode_le_iff] at hLe
    omega
  · exact (BigEndian.length_encode_le_iff n 8).mpr hFit

/-
  The decoder reads back every prefix the encoder writes,
  unless it announces a single byte that needs no prefix.
-/
theorem consumeLengthPrefix_lengthPrefix
    (isList : Bool)
    {n : Nat}
    (hFit : n < 256 ^ 8)
    (bs : Bytes)
    (hSingle :
      isList = false → n = 1 →
        (bs.head?.any fun y => y < 0x80) = false) :
    consumeLengthPrefix
        (lengthPrefix (kindOffset isList) n ++ bs) =
      some ⟨isList, n, bs⟩ := by
  by_cases hShort : n < 56
  · cases isList with
    | false =>
        have hByte :
            (UInt8.ofNat (0x80 + n)).toNat = 0x80 + n :=
          toNat_ofNat_of_lt (by omega)
        simp only [lengthPrefix, kindOffset, if_pos hShort,
          List.cons_append, List.nil_append,
          consumeLengthPrefix, Bool.false_eq_true,
          if_false, hByte]
        rw [if_neg (by omega), if_pos (by omega), if_neg,
          Nat.add_sub_cancel_left]
        rintro ⟨hOne, hSmall⟩
        rw [hSingle rfl (by omega)] at hSmall
        cases hSmall
    | true =>
        have hByte :
            (UInt8.ofNat (0xc0 + n)).toNat = 0xc0 + n :=
          toNat_ofNat_of_lt (by omega)
        simp only [lengthPrefix, kindOffset, if_pos hShort,
          List.cons_append, List.nil_append,
          consumeLengthPrefix, if_true, hByte]
        rw [if_neg (by omega), if_neg (by omega),
          if_neg (by omega), if_pos (by omega),
          Nat.add_sub_cancel_left]
  · rcases lengthOfLength_bounds (by omega) hFit with
      ⟨hPos, hLe⟩
    cases isList with
    | false =>
        have hByte :
            (UInt8.ofNat
              (0x80 + 55 +
                (BigEndian.encode n).length)).toNat =
              0xb7 + (BigEndian.encode n).length :=
          toNat_ofNat_of_lt (by omega)
        simp only [lengthPrefix, kindOffset,
          if_neg hShort, List.cons_append,
          consumeLengthPrefix, Bool.false_eq_true,
          if_false, hByte]
        rw [if_neg (by omega), if_neg (by omega),
          if_pos (by omega), Nat.add_sub_cancel_left]
        exact consumeLongLength_encode false (by omega) bs
    | true =>
        have hByte :
            (UInt8.ofNat
              (0xc0 + 55 +
                (BigEndian.encode n).length)).toNat =
              0xf7 + (BigEndian.encode n).length :=
          toNat_ofNat_of_lt (by omega)
        simp only [lengthPrefix, kindOffset,
          if_neg hShort, List.cons_append,
          consumeLengthPrefix, if_true, hByte]
        rw [if_neg (by omega), if_neg (by omega),
          if_neg (by omega), if_neg (by omega),
          Nat.add_sub_cancel_left]
        exact consumeLongLength_encode true (by omega) bs

/- What the decoder reads is what the encoder writes. -/
theorem consumeLengthPrefix_some
    {bs : Bytes}
    {a : Announced}
    (hRead : consumeLengthPrefix bs = some a) :
    (a.isList = false ∧ a.length = 1 ∧ a.rest = bs ∧
        (bs.head?.any fun y => y < 0x80) = true) ∨
      (a.length < 256 ^ 8 ∧
        (a.isList = false → a.length = 1 →
          (a.rest.head?.any fun y => y < 0x80) = false) ∧
        bs =
          lengthPrefix (kindOffset a.isList) a.length ++
            a.rest) := by
  cases bs with
  | nil => cases hRead
  | cons x bs =>
      have hx : x.toNat < 256 := x.toNat_lt
      have hByte : ∀ n, n = x.toNat → UInt8.ofNat n = x := by
        rintro n rfl
        simp
      simp only [consumeLengthPrefix] at hRead
      by_cases h80 : x.toNat < 0x80
      · rw [if_pos h80] at hRead
        cases hRead
        exact Or.inl ⟨rfl, rfl, rfl, by
          simpa [UInt8.lt_iff_toNat_lt] using h80⟩
      rw [if_neg h80] at hRead
      right
      by_cases hb8 : x.toNat < 0xb8
      · rw [if_pos hb8] at hRead
        split at hRead
        · cases hRead
        · rename_i hSingle
          cases hRead
          refine ⟨by simp only; omega, ?_, ?_⟩
          · intro _ hOne
            by_contra hAny
            simp only at hOne
            exact hSingle
              ⟨by omega, by simpa using hAny⟩
          · simp only [kindOffset, Bool.false_eq_true,
              if_false, lengthPrefix]
            rw [if_pos (by omega), hByte _ (by omega)]
            rfl
      rw [if_neg hb8] at hRead
      by_cases hc0 : x.toNat < 0xc0
      · rw [if_pos hc0] at hRead
        rcases consumeLongLength_some hRead with
          ⟨hLong, hLen, hKind, rfl⟩
        refine ⟨?_, by intros; omega, ?_⟩
        · rw [← BigEndian.length_encode_le_iff]
          omega
        · simp only [hKind, kindOffset, lengthPrefix,
            Bool.false_eq_true, if_false]
          rw [if_neg (by omega), hByte _ (by omega)]
          rfl
      rw [if_neg hc0] at hRead
      by_cases hf8 : x.toNat < 0xf8
      · rw [if_pos hf8] at hRead
        cases hRead
        refine ⟨by simp only; omega, by simp, ?_⟩
        simp only [kindOffset, if_true, lengthPrefix]
        rw [if_pos (by omega), hByte _ (by omega)]
        rfl
      · rw [if_neg hf8] at hRead
        rcases consumeLongLength_some hRead with
          ⟨hLong, hLen, hKind, rfl⟩
        refine ⟨?_, by simp [hKind], ?_⟩
        · rw [← BigEndian.length_encode_le_iff]
          omega
        · simp only [hKind, kindOffset, lengthPrefix,
            if_true]
          rw [if_neg (by omega), hByte _ (by omega)]
          rfl

------------------------------------------------------------
-- Correctness of the Decoder
------------------------------------------------------------

private theorem consumeItem_str
    (fuel : Nat)
    {b : Bytes}
    (hFit : b.length < 256 ^ 8)
    (rest : Bytes) :
    consumeItem (fuel + 1) (encodeStr b ++ rest) =
      some (.str b, rest) := by
  rcases encodeStr_eq b with
    ⟨x, rfl, hx, hEnc⟩ | ⟨hBig, hEnc⟩
  · have hNat : x.toNat < 0x80 := by
      simpa [UInt8.lt_iff_toNat_lt] using hx
    simp [hEnc, consumeItem, consumeLengthPrefix, hNat]
  · have hPrefix :=
      consumeLengthPrefix_lengthPrefix false hFit
        (b ++ rest) (by
          intro _ hOne
          rcases List.length_eq_one_iff.mp hOne with
            ⟨x, rfl⟩
          simpa using hBig x rfl)
    rw [hEnc, List.append_assoc]
    simp only [kindOffset, Bool.false_eq_true, if_false]
      at hPrefix
    simp [consumeItem, hPrefix]

/-
  Reading the front of an encoding gives the item back. The
  fuel counts two units for each encoded byte: one for the
  item and one for its place in the enclosing list.
-/
theorem consumeItem_encode
    (fuel : Nat) :
    (∀ x : Item, x.Encodable → ∀ rest,
        2 * (encode x).length ≤ fuel →
          consumeItem fuel (encode x ++ rest) =
            some (x, rest)) ∧
      (∀ xs : List Item, AllEncodable xs →
        2 * (encodeList xs).length + 1 ≤ fuel →
          consumeItems fuel (encodeList xs) =
            some xs) := by
  induction fuel with
  | zero =>
      constructor
      · intro x _ rest hFuel
        have hPos := encode_length_pos x
        omega
      · intro xs _ hFuel
        omega
  | succ fuel ih =>
      constructor
      · intro x hx rest hFuel
        cases x with
        | str b =>
            exact consumeItem_str fuel hx rest
        | list xs =>
            have hPrefix :=
              consumeLengthPrefix_lengthPrefix true hx.1
                (encodeList xs ++ rest) (by simp)
            have hItems := ih.2 xs hx.2 (by
              have hPos :=
                List.length_pos_of_ne_nil
                  (lengthPrefix_ne_nil 0xc0
                    (encodeList xs).length)
              simp only [encode, List.length_append]
                at hFuel
              omega)
            simp only [kindOffset, if_true] at hPrefix
            simp [encode, consumeItem, hPrefix, hItems]
      · intro xs hxs hFuel
        cases xs with
        | nil => simp [encodeList, consumeItems]
        | cons x xs =>
            have hPos := encode_length_pos x
            simp only [encodeList, List.length_append]
              at hFuel
            have hItem :=
              ih.1 x hxs.1 (encodeList xs) (by omega)
            have hItems := ih.2 xs hxs.2 (by omega)
            cases hEnc : encode x with
            | nil => exact (encode_ne_nil x hEnc).elim
            | cons y ys =>
                rw [hEnc] at hItem
                simp only [encodeList, hEnc,
                  List.cons_append, consumeItems]
                simp only [List.cons_append] at hItem
                simp [hItem, hItems]

/- A prefixed byte string that needs its prefix. -/
private theorem encodeStr_take
    {n : Nat}
    {tail : Bytes}
    (hLen : n ≤ tail.length)
    (hSingle :
      n = 1 →
        (tail.head?.any fun y => y < 0x80) = false) :
    encodeStr (tail.take n) =
      lengthPrefix 0x80 n ++ tail.take n := by
  have hTake : (tail.take n).length = n := by
    rw [List.length_take]
    omega
  rcases encodeStr_eq (tail.take n) with
    ⟨x, hx, hSmall, _⟩ | ⟨_, hEnc⟩
  · rw [hx] at hTake
    have hOne : n = 1 := hTake.symm
    cases tail with
    | nil => simp at hx
    | cons y tail =>
        have hNot := hSingle hOne
        subst hOne
        simp only [List.take_succ_cons, List.take_zero]
          at hx
        cases hx
        simp [hSmall] at hNot
  · rw [hEnc, hTake]

/- Everything the decoder reads is a canonical encoding. -/
theorem consumeItem_some
    (fuel : Nat) :
    (∀ bs x rest, consumeItem fuel bs = some (x, rest) →
        x.Encodable ∧ bs = encode x ++ rest) ∧
      (∀ bs xs, consumeItems fuel bs = some xs →
        AllEncodable xs ∧ bs = encodeList xs) := by
  induction fuel with
  | zero =>
      constructor
      · intro bs x rest hRead
        simp [consumeItem] at hRead
      · intro bs xs hRead
        simp [consumeItems] at hRead
  | succ fuel ih =>
      constructor
      · intro bs x rest hRead
        simp only [consumeItem] at hRead
        split at hRead
        · cases hRead
        · rename_i isList length tail hPrefix
          split at hRead
          · cases hRead
          · rename_i hLen
            have hSplit :
                tail.take length ++ tail.drop length = tail :=
              List.take_append_drop length tail
            have hTake : (tail.take length).length = length := by
              rw [List.length_take]
              omega
            rcases consumeLengthPrefix_some hPrefix with
              ⟨hKind, hOne, hTail, hSmall⟩ |
                ⟨hFit, hSingle, hBytes⟩
            · simp only at hKind hOne hTail
              subst hKind hOne hTail
              simp only [Bool.false_eq_true, if_false]
                at hRead
              cases hRead
              cases tail with
              | nil => simp at hSmall
              | cons y tail =>
                  have hy : y < 0x80 := by
                    simpa using hSmall
                  simp [Item.Encodable, encode, encodeStr,
                    hy]
            · simp only at hFit hSingle hBytes
              cases isList with
              | false =>
                  simp only [Bool.false_eq_true, if_false]
                    at hRead
                  cases hRead
                  refine ⟨by simpa [Item.Encodable, hTake]
                    using hFit, ?_⟩
                  rw [hBytes, encode,
                    encodeStr_take (by omega) (hSingle rfl),
                    List.append_assoc, hSplit]
                  rfl
              | true =>
                  simp only [if_true] at hRead
                  split at hRead
                  · cases hRead
                  · rename_i items hItems
                    cases hRead
                    rcases ih.2 _ _ hItems with
                      ⟨hxs, hPayload⟩
                    refine ⟨⟨?_, hxs⟩, ?_⟩
                    · rw [← hPayload, hTake]
                      exact hFit
                    · rw [hBytes, encode, ← hPayload,
                        hTake, List.append_assoc, hSplit]
                      rfl
      · intro bs xs hRead
        cases bs with
        | nil =>
            simp only [consumeItems] at hRead
            cases hRead
            exact ⟨trivial, rfl⟩
        | cons y bs =>
            simp only [consumeItems] at hRead
            split at hRead
            · cases hRead
            · rename_i item rest hItem
              split at hRead
              · cases hRead
              · rename_i items hItems
                cases hRead
                rcases ih.1 _ _ _ hItem with ⟨hx, hBytes⟩
                rcases ih.2 _ _ hItems with ⟨hxs, hRest⟩
                exact ⟨⟨hx, hxs⟩, by
                  rw [hBytes, hRest, encodeList]⟩

/- Decoding undoes encoding. -/
theorem decode_encode
    {x : Item}
    (hx : x.Encodable) :
    decode (encode x) = some x := by
  have hRead :=
    (consumeItem_encode (2 * (encode x).length + 1)).1
      x hx [] (by omega)
  rw [List.append_nil] at hRead
  simp [decode, hRead]

/- A decoded byte string is the encoding of its item. -/
theorem encode_of_decode
    {bs : Bytes}
    {x : Item}
    (hDecode : decode bs = some x) :
    x.Encodable ∧ encode x = bs := by
  unfold decode at hDecode
  split at hDecode
  · rename_i y hRead
    cases hDecode
    rcases (consumeItem_some _).1 _ _ _ hRead with
      ⟨hx, hBytes⟩
    exact ⟨hx, by rw [hBytes, List.append_nil]⟩
  · cases hDecode

/- Encodings are uniquely readable from the front. -/
theorem encode_append_inj
    {x y : Item}
    {r s : Bytes}
    (hx : x.Encodable)
    (hy : y.Encodable)
    (hEq : encode x ++ r = encode y ++ s) :
    x = y ∧ r = s := by
  let fuel :=
    2 * (encode x).length + 2 * (encode y).length
  have hLeft :=
    (consumeItem_encode fuel).1 x hx r (by omega)
  have hRight :=
    (consumeItem_encode fuel).1 y hy s (by omega)
  rw [hEq, hRight] at hLeft
  cases hLeft
  exact ⟨rfl, rfl⟩

theorem encode_inj
    {x y : Item}
    (hx : x.Encodable)
    (hy : y.Encodable)
    (hEq : encode x = encode y) :
    x = y := by
  have hAppend : encode x ++ [] = encode y ++ [] := by
    rw [hEq]
  exact (encode_append_inj hx hy hAppend).1

/- No encoded number starts another one. -/
theorem encode_int_append_inj
    {m n : Nat}
    {r s : Bytes}
    (hm : (int m).Encodable)
    (hn : (int n).Encodable)
    (hEq :
      encode (int m) ++ r = encode (int n) ++ s) :
    m = n ∧ r = s := by
  rcases encode_append_inj hm hn hEq with ⟨hItem, hRest⟩
  refine ⟨?_, hRest⟩
  apply BigEndian.encode_injective
  simpa [int] using hItem

end RLP
