import StingFlashbots.Encoding.Hex
import Mathlib.Logic.Function.Basic

/-
  Files as a Go program sees them.

  Paths are cleaned as `path/filepath` cleans them on Unix.
  A call of `os.WriteFile` completes, fails before it opens
  the file, or fails in the middle: then the file has been
  truncated and holds the part written so far.

  Key definitions include:
    * `OS.clean`, `OS.join`
    * `OS.hexString`
    * `OS.WriteCall`
    * `OS.replay`
    * `OS.lastOpen`

  Key results include:
    * `OS.join_injective`
    * `OS.hexString_injective`
    * `OS.replay_eq`
-/

namespace OS

------------------------------------------------------------
-- Paths
------------------------------------------------------------

abbrev Path := List Char

/-
  One component of a path, on the components before it,
  last one first.
-/
def cleanStep
    (rooted : Bool)
    (stack : List Path)
    (component : Path) : List Path :=
  if component = [] ∨ component = ['.'] then
    stack
  else if component = ['.', '.'] then
    match stack with
    | [] => if rooted then [] else [component]
    | top :: rest =>
        if top = ['.', '.'] then component :: stack else rest
  else
    component :: stack

/- `filepath.Clean` -/
def clean (path : Path) : Path :=
  let rooted := path.head? = some '/'
  let stack := (path.splitOn '/').foldl (cleanStep rooted) []
  let body := List.intercalate ['/'] stack.reverse
  if rooted then
    '/' :: body
  else if body = [] then
    ['.']
  else
    body

/- `filepath.Join` -/
def join (elem : List Path) : Path :=
  match elem.dropWhile List.isEmpty with
  | [] => []
  | rest => clean (List.intercalate ['/'] rest)

/- A file name: one component that is not a dot. -/
structure PlainName (name : Path) : Prop where
  noSlash : '/' ∉ name
  ne_nil : name ≠ []
  ne_dot : name ≠ ['.']
  ne_dotdot : name ≠ ['.', '.']

/- Everything in front of the last component. -/
private def beforeLast (components : List Path) : Path :=
  components.flatMap (· ++ ['/'])

private theorem intercalate_concat
    (components : List Path)
    (name : Path) :
    List.intercalate ['/'] (components ++ [name]) =
      beforeLast components ++ name := by
  induction components with
  | nil => simp [beforeLast]
  | cons c cs ih =>
      have hNe : cs ++ [name] ≠ [] := by simp
      rw [List.cons_append,
        List.intercalate_cons_of_ne_nil hNe, ih]
      simp [beforeLast]

private theorem cleanStep_plain
    {name : Path}
    (hName : PlainName name)
    (rooted : Bool)
    (stack : List Path) :
    cleanStep rooted stack name = name :: stack := by
  simp [cleanStep, hName.ne_nil, hName.ne_dot,
    hName.ne_dotdot]

private theorem splitOn_plain
    {name : Path}
    (hName : PlainName name) :
    name.splitOn '/' = [name] := by
  rw [List.splitOn_eq_splitOnP]
  apply List.splitOnP_eq_singleton
  intro c hc
  have hNe : c ≠ '/' := fun hEq => hName.noSlash (hEq ▸ hc)
  simpa using hNe

/- A plain name is clean. -/
private theorem clean_plain
    {name : Path}
    (hName : PlainName name) :
    clean name = name := by
  have hHead : name.head? ≠ some '/' :=
    fun hEq => hName.noSlash (List.mem_of_head? hEq)
  simp [clean, splitOn_plain hName, hHead,
    cleanStep_plain hName, hName.ne_nil]

/- A cleaned path ends in its last plain component. -/
private theorem clean_append_plain
    {name : Path}
    (hName : PlainName name)
    {dir : Path}
    (hDir : dir ≠ []) :
    clean (dir ++ '/' :: name) =
      (if dir.head? = some '/' then ['/'] else []) ++
        beforeLast ((dir.splitOn '/').foldl
          (cleanStep (dir.head? = some '/')) []).reverse ++
        name := by
  have hBody :
      ∀ front : Path, front ++ name ≠ [] := by
    intro front hNil
    exact hName.ne_nil (List.append_eq_nil_iff.mp hNil).2
  have hHead :
      (dir ++ '/' :: name).head? = dir.head? :=
    List.head?_append_of_ne_nil dir hDir
  have hSplit :
      (dir ++ '/' :: name).splitOn '/' =
        dir.splitOn '/' ++ [name] := by
    rw [List.splitOn_append_cons_self,
      splitOn_plain hName]
  simp only [clean, hHead, hSplit, List.foldl_append,
    List.foldl_cons, List.foldl_nil,
    cleanStep_plain hName, List.reverse_cons,
    intercalate_concat, if_neg (hBody _)]
  split_ifs
  · rfl
  · rfl

private theorem join_plain
    {name : Path}
    (hName : PlainName name)
    (dir : Path) :
    join [dir, name] =
      if dir = [] then name
      else clean (dir ++ '/' :: name) := by
  cases dir with
  | nil =>
      cases name with
      | nil => exact absurd rfl hName.ne_nil
      | cons c cs =>
          simpa [join] using clean_plain hName
  | cons d ds =>
      simp [join, List.intercalate_cons_cons]

/- Different names in one directory are different files. -/
theorem join_injective
    {dir a b : Path}
    (ha : PlainName a)
    (hb : PlainName b)
    (hEq : join [dir, a] = join [dir, b]) :
    a = b := by
  rw [join_plain ha, join_plain hb] at hEq
  split_ifs at hEq with hDir
  · exact hEq
  · rw [clean_append_plain ha hDir,
      clean_append_plain hb hDir] at hEq
    exact List.append_cancel_left hEq

------------------------------------------------------------
-- Hexadecimal Names
------------------------------------------------------------

/- `hexutil.Encode`: two digits a byte, after `0x`. -/
def hexString (b : Bytes) : Path :=
  '0' :: 'x' :: Hex.encode b

theorem hexString_injective :
    Function.Injective hexString := by
  intro a b hEq
  simp only [hexString, List.cons.injEq, true_and] at hEq
  exact Hex.encode_injective hEq

theorem plainName_hexString
    (b : Bytes) :
    PlainName (hexString b) where
  noSlash := by
    simp [hexString, Hex.slash_not_mem_encode]
  ne_nil := by simp [hexString]
  ne_dot := by simp [hexString]
  ne_dotdot := by simp [hexString]

------------------------------------------------------------
-- Writing Files
------------------------------------------------------------

/- What became of a call of `os.WriteFile`. -/
inductive WriteResult where
| complete
| unopened
| torn (kept : Nat)
deriving DecidableEq, Repr

/- A call of `os.WriteFile`. -/
structure WriteCall where
  path : Path
  data : Bytes
  result : WriteResult
deriving DecidableEq, Repr

abbrev Files := Path → Option Bytes

/- What the file holds after a call that opened it. -/
def WriteCall.content (call : WriteCall) : Option Bytes :=
  match call.result with
  | .complete => some call.data
  | .unopened => none
  | .torn kept => some (call.data.take kept)

/- The files after a call. -/
def WriteCall.apply
    (call : WriteCall)
    (files : Files) : Files :=
  match call.content with
  | none => files
  | some content =>
      Function.update files call.path (some content)

/- The files after a sequence of calls. -/
def replay
    (files : Files)
    (calls : List WriteCall) : Files :=
  calls.foldl (fun files call => call.apply files) files

/- The last call that opened the file. -/
def lastOpen
    (calls : List WriteCall)
    (path : Path) : Option WriteCall :=
  calls.reverse.find? fun call =>
    call.path = path ∧ call.result ≠ .unopened

theorem replay_append
    (files : Files)
    (calls more : List WriteCall) :
    replay files (calls ++ more) =
      replay (replay files calls) more :=
  List.foldl_append

private theorem content_eq_none_iff
    {call : WriteCall} :
    call.content = none ↔ call.result = .unopened := by
  unfold WriteCall.content
  cases call.result with
  | complete => simp
  | unopened => simp
  | torn kept => simp

private theorem lastOpen_concat
    (calls : List WriteCall)
    (call : WriteCall)
    (path : Path) :
    lastOpen (calls ++ [call]) path =
      if call.path = path ∧ call.result ≠ .unopened then
        some call
      else
        lastOpen calls path := by
  simp only [lastOpen, List.reverse_append,
    List.reverse_singleton, List.singleton_append,
    List.find?_cons]
  split_ifs with hTest
  · rw [decide_eq_true hTest]
  · rw [decide_eq_false hTest]

/- A file holds what the last call that opened it left. -/
theorem replay_eq
    (files : Files)
    (calls : List WriteCall)
    (path : Path) :
    replay files calls path =
      match lastOpen calls path with
      | none => files path
      | some call => call.content := by
  induction calls using List.reverseRecOn with
  | nil => rfl
  | append_singleton calls call ih =>
      have hStep :
          replay files (calls ++ [call]) =
            call.apply (replay files calls) :=
        replay_append files calls [call]
      rw [hStep, lastOpen_concat]
      unfold WriteCall.apply
      cases hContent : call.content with
      | none =>
          have hResult := content_eq_none_iff.mp hContent
          rw [if_neg (fun h => h.2 hResult)]
          exact ih
      | some content =>
          have hResult : call.result ≠ .unopened := by
            intro hEq
            rw [content_eq_none_iff.mpr hEq] at hContent
            cases hContent
          by_cases hPath : call.path = path
          · rw [if_pos ⟨hPath, hResult⟩, ← hPath]
            exact (Function.update_self _ _ _).trans
              hContent.symm
          · rw [if_neg (fun h => hPath h.1)]
            exact (Function.update_of_ne
              (Ne.symm hPath) _ _).trans ih

theorem lastOpen_spec
    {calls : List WriteCall}
    {path : Path}
    {call : WriteCall}
    (hLast : lastOpen calls path = some call) :
    call ∈ calls ∧ call.path = path ∧
      call.result ≠ .unopened := by
  have hMem := List.mem_of_find?_eq_some hLast
  have hTest := List.find?_some hLast
  simp only [decide_eq_true_eq] at hTest
  exact ⟨List.mem_reverse.mp hMem, hTest⟩

/- The file holds a part of the data, all of it if complete. -/
theorem WriteCall.content_spec
    {call : WriteCall}
    (hOpen : call.result ≠ .unopened) :
    ∃ content,
      call.content = some content ∧
      content <+: call.data ∧
      (call.result = .complete → content = call.data) := by
  unfold WriteCall.content
  cases hResult : call.result with
  | complete =>
      exact ⟨call.data, rfl, List.prefix_refl _,
        fun _ => rfl⟩
  | unopened => exact absurd hResult hOpen
  | torn kept =>
      refine ⟨call.data.take kept, rfl,
        List.take_prefix _ _, ?_⟩
      intro hEq
      cases hEq

end OS
