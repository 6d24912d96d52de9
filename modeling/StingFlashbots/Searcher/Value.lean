import StingFlashbots.Base.Except
import StingFlashbots.Encoding.RLP

/-
  The Python values the proof tools handle.

  `rlp.decode` returns nested lists of byte strings, and
  indexing a byte string gives an integer, so a decoded
  value is an item, an integer or `None`. Operations raise
  what the interpreter raises on a value of the wrong kind.

  Key definitions include:
    * `PyErr` and `Py`
    * `Val`
    * `Val.len` and `Val.getItem`
    * `rlpEncode` and `rlpDecode`
    * `bigEndianToInt`
-/

namespace Sting

open RLP (Item)

------------------------------------------------------------
-- Exceptions
------------------------------------------------------------

/- The exceptions of the modelled programs. -/
inductive PyErr where
| assertionError
| typeError
| indexError
| keyError
| attributeError
| decodingError
| recursionError
| serializationError
| deserializationError
| sslError
| badSignature
| badSignatureText (message : String)
| typeErrorText (message : String)
| exception (message : String)
| valueError (message : String)
deriving DecidableEq, Repr

/- A computation that may raise. -/
abbrev Py :=
  Except PyErr

/- The `assert` statement. -/
def pyAssert
    (p : Prop)
    [Decidable p] : Py Unit :=
  if p then .ok () else .error .assertionError

@[simp] theorem pyAssert_eq_ok
    {p : Prop}
    [Decidable p]
    {u : Unit} :
    pyAssert p = .ok u ↔ p := by
  unfold pyAssert
  split <;> simp_all

theorem pyAssert_pos
    {p : Prop}
    [Decidable p]
    (hp : p) :
    pyAssert p = .ok () :=
  if_pos hp

theorem pyAssert_neg
    {p : Prop}
    [Decidable p]
    (hp : ¬ p) :
    pyAssert p = .error .assertionError :=
  if_neg hp

------------------------------------------------------------
-- Values
------------------------------------------------------------

/- A value met while a proof is decoded. -/
inductive Val where
| none : Val
| int : Nat → Val
| item : Item → Val
deriving DecidableEq, Repr

namespace Val

/- The elements of a sequence. -/
def elements : Val → Py (List Val)
| .item (.str b) => .ok (b.map fun x => .int x.toNat)
| .item (.list xs) => .ok (xs.map .item)
| .none => .error .typeError
| .int _ => .error .typeError

/- The built-in `len`. -/
def len : Val → Py Nat
| .item (.str b) => .ok b.length
| .item (.list xs) => .ok xs.length
| .none => .error .typeError
| .int _ => .error .typeError

/- Indexing from the front. -/
def getItem : Val → Nat → Py Val
| .item (.str b), i =>
    match b[i]? with
    | some x => .ok (.int x.toNat)
    | Option.none => .error .indexError
| .item (.list xs), i =>
    match xs[i]? with
    | some x => .ok (.item x)
    | Option.none => .error .indexError
| .none, _ => .error .typeError
| .int _, _ => .error .typeError

end Val

------------------------------------------------------------
-- RLP and Integers
------------------------------------------------------------

/- Encode an item whose payload lengths are in range. -/
def rlpEncodeItem (x : Item) : Py Bytes :=
  if x.Encodable then
    .ok (RLP.encode x)
  else
    .error (.valueError "Length greater than 256**8")

/- `rlp.encode` with inferred sedes. -/
def rlpEncode : Val → Py Bytes
| .item x => rlpEncodeItem x
| .int n => rlpEncodeItem (RLP.int n)
| .none => .error .typeError

/- Strict `rlp.decode` of a byte string. -/
def rlpDecodeBytes (b : Bytes) : Py Item :=
  match RLP.decode b with
  | some x => .ok x
  | none => .error .decodingError

/- `rlp.decode` accepts byte strings only. -/
def rlpDecode : Val → Py Item
| .item (.str b) => rlpDecodeBytes b
| .item (.list _) => .error .decodingError
| .int _ => .error .decodingError
| .none => .error .decodingError

/-
  `int.from_bytes(value, "big")`. A list is an iterable of
  integers for it; the lists met here hold byte strings and
  lists, so only the empty one is accepted.
-/
def bigEndianToInt : Val → Py Nat
| .item (.str b) => .ok (BigEndian.decode b)
| .item (.list []) => .ok 0
| .item (.list (_ :: _)) => .error .typeError
| .int _ => .error .typeError
| .none => .error .typeError

theorem rlpEncodeItem_eq_ok
    {x : Item}
    {b : Bytes} :
    rlpEncodeItem x = .ok b ↔
      x.Encodable ∧ RLP.encode x = b := by
  unfold rlpEncodeItem
  split <;> simp_all

theorem rlpDecodeBytes_eq_ok
    {b : Bytes}
    {x : Item} :
    rlpDecodeBytes b = .ok x ↔ RLP.decode b = some x := by
  unfold rlpDecodeBytes
  split <;> simp_all

end Sting
