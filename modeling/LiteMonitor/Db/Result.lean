import LiteMonitor.Config.Parameters
import LiteMonitor.LTS.Basic
import Mathlib.Logic.Function.Iterate

/-!
# The result of a query

`class DBResult`.  The client library keeps the rows and the place of the next one; an object holds
them through a `shared_ptr`, so that a copy of it goes on where the other one stands, while the
current row is its own.

* `MysqlResults R` : what the library answers about a result; `Stored` : a result that is stored.
* `DBResult.ofResult`, `nextRow`, `getRawAt`, `getRaw` : the member functions.
* `system` : any number of objects, which are asked for rows and copied.
* `rows_once` : **every row goes to one `nextRow`, in order, and a name finds its first column**.
-/

namespace LiteMonitor

/-- `MYSQL_ROW`: the values of the columns, `none` for a null pointer. -/
abbrev MysqlRow := List (Option StdString)

/-- What the client library answers about a result, and what becomes of the result. -/
structure MysqlResults (R : Type*) where
  mysql_num_fields : R → ℕ
  /-- The names in `mysql_fetch_fields`. -/
  mysql_fetch_fields : R → List StdString
  mysql_fetch_row : R → Option MysqlRow × R

namespace MysqlResults

variable {R : Type*} (lib : MysqlResults R)

/-- The result after a `mysql_fetch_row`. -/
def next (r : R) : R := (lib.mysql_fetch_row r).2

/-- A result with these columns and rows, as `mysql_store_result` returns it: one call after another
fetches the rows, and then null pointers. -/
structure Stored (r : R) (names : List StdString) (rows : List MysqlRow) : Prop where
  num_fields : lib.mysql_num_fields r = names.length
  fields : lib.mysql_fetch_fields r = names
  row : ∀ k, (lib.mysql_fetch_row (lib.next^[k] r)).1 = rows[k]?
  width : ∀ row ∈ rows, row.length = names.length

end MysqlResults

/-- `class DBResult`; `result_` is not null. -/
structure DBResult where
  result_ : Bool := false
  row_ : Option MysqlRow := none
  num_fields_ : ℕ := 0
  field_index_map_ : StdString → Option ℕ := fun _ => none

namespace DBResult

open LTS

/-- `unordered_map::emplace`. -/
def emplace (m : StdString → Option ℕ) (name : StdString) (i : ℕ) : StdString → Option ℕ :=
  if (m name).isSome then m else Function.update m name (some i)

variable {R : Type*} (lib : MysqlResults R)

/-- The constructor. -/
def ofResult (result : Option R) : DBResult :=
  match result with
  | none => {}
  | some r =>
    let fields := (lib.mysql_fetch_fields r).take (lib.mysql_num_fields r)
    { result_ := true
      num_fields_ := lib.mysql_num_fields r
      field_index_map_ := fields.zipIdx.foldl (fun m x => emplace m x.1 x.2) fun _ => none }

/-- `DBResult::nextRow`, with the result it is asked for. -/
def nextRow (d : DBResult) (r : R) : Bool × DBResult × R :=
  if !d.result_ then (false, d, r)
  else
    let (row, r) := lib.mysql_fetch_row r
    (row.isSome, { d with row_ := row }, r)

/-- `DBResult::getRaw` of an index. -/
def getRawAt (d : DBResult) (index : ℕ) : Option StdString :=
  match d.row_ with
  | none => none
  | some row => if index ≥ d.num_fields_ then none else row[index]?.join

/-- `DBResult::getRaw` of a name. -/
def getRaw (d : DBResult) (field_name : StdString) : Option StdString :=
  match d.field_index_map_ field_name with
  | none => none
  | some index => d.getRawAt index

/-! ### The columns -/

theorem emplace_of_ne (m : StdString → Option ℕ) {first name : StdString} (i : ℕ)
    (h : name ≠ first) : emplace m first i name = m name := by
  unfold emplace
  split_ifs
  · rfl
  · exact Function.update_of_ne h ..

theorem emplace_self (m : StdString → Option ℕ) (name : StdString) (i : ℕ) :
    emplace m name i name = (m name).or (some i) := by
  unfold emplace
  cases h : m name with
  | none => simp
  | some j => simp [h]

/-- What is in the map stays, and what is not yet is found at its first place. -/
theorem foldl_emplace (names : List StdString) (m : StdString → Option ℕ) (k : ℕ)
    (name : StdString) :
    (names.zipIdx k).foldl (fun m x => emplace m x.1 x.2) m name =
      (m name).or ((names.idxOf? name).map (k + ·)) := by
  induction names generalizing m k with
  | nil => simp
  | cons first names ih =>
    rw [List.zipIdx_cons, List.foldl_cons, ih, List.idxOf?_cons]
    by_cases hname : name = first
    · subst hname
      rw [emplace_self]
      cases m name <;> simp
    · have hbeq : (first == name) = false := beq_false_of_ne (Ne.symm hname)
      rw [emplace_of_ne m k hname, hbeq, if_neg Bool.false_ne_true, Option.map_map]
      refine congrArg _ (congrArg (Option.map · _) (funext fun j => ?_))
      simp only [Function.comp_apply]
      omega

variable {lib} {r : R} {names : List StdString} {rows : List MysqlRow}

/-- A name is at its first column. -/
theorem field_index_map_ofResult (h : lib.Stored r names rows) :
    (ofResult lib (some r)).field_index_map_ = fun name => names.idxOf? name := by
  funext name
  simp only [ofResult]
  rw [h.num_fields, h.fields, List.take_length, foldl_emplace]
  cases names.idxOf? name <;> simp

theorem getRaw_eq {d : DBResult} (hmap : d.field_index_map_ = fun name => names.idxOf? name)
    (hnum : d.num_fields_ = names.length) (name : StdString) :
    d.getRaw name = d.row_.bind fun row => ((names.idxOf? name).bind (row[·]?)).join := by
  have hidx : d.field_index_map_ name = names.idxOf? name := congrFun hmap name
  unfold getRaw getRawAt
  rw [hidx, hnum]
  cases hfind : names.idxOf? name with
  | none => cases d.row_ <;> rfl
  | some i =>
    obtain ⟨hlt, -⟩ := List.idxOf?_eq_some_iff.1 hfind
    cases d.row_ with
    | none => rfl
    | some row => exact if_neg (Nat.not_le.2 hlt)

theorem nextRow_of_result {d : DBResult} (hd : d.result_ = true) (r : R) :
    d.nextRow lib r = ((lib.mysql_fetch_row r).1.isSome,
      { d with row_ := (lib.mysql_fetch_row r).1 }, lib.next r) := by
  rw [nextRow, hd]
  rfl

theorem nextRow_of_null {d : DBResult} (hd : d.result_ = false) (r : R) :
    d.nextRow lib r = (false, d, r) := by
  rw [nextRow, hd]
  rfl

/-! ### Several objects -/

variable {ι : Type*}

/-- A result and the objects that may hold it. -/
structure Shared (R ι : Type*) where
  result : R
  object : ι → DBResult

/-- The calls. -/
inductive Act (ι : Type*) where
  /-- `nextRow` of object `i`. -/
  | nextRow (i : ι)
  /-- Object `i` becomes a copy of object `j`. -/
  | copy (i j : ι)

variable [DecidableEq ι] (lib)

def step (s : Shared R ι) : Act ι → Option (Shared R ι)
  | .nextRow i =>
    let (_, d, r) := (s.object i).nextRow lib s.result
    some ⟨r, Function.update s.object i d⟩
  | .copy i j => some ⟨s.result, Function.update s.object i (s.object j)⟩

/-- The objects as a transition system. -/
def system (ι : Type*) [DecidableEq ι] : LTS (Shared R ι) (Act ι) := .ofFun (step lib)

/-- Object `i` is made from the result; the others are `DBResult()`. -/
def start (r : R) (i : ι) : Shared R ι :=
  ⟨r, Function.update (fun _ => {}) i (ofResult lib (some r))⟩

/-- The row that a call gets. -/
def fetched (s : Shared R ι) : Act ι → Option MysqlRow
  | .nextRow i => if ((s.object i).nextRow lib s.result).1 then
      ((s.object i).nextRow lib s.result).2.1.row_ else none
  | .copy _ _ => none

/-- The rows that the calls of a run get, in order. -/
def delivered (tr : List (Shared R ι × Act ι)) : List MysqlRow :=
  tr.filterMap fun x => fetched lib x.1 x.2

omit [DecidableEq ι] in
/-- The call asks the library for a row. -/
def asks (s : Shared R ι) : Act ι → Bool
  | .nextRow i => (s.object i).result_
  | .copy _ _ => false

omit [DecidableEq ι] in
/-- The calls of a run that ask the library for a row. -/
def asked (tr : List (Shared R ι × Act ι)) : ℕ := tr.countP fun x => asks x.1 x.2

variable {lib}

/-- Where a run has come to. -/
structure Reading (lib : MysqlResults R) (r : R) (names : List StdString) (rows : List MysqlRow)
    (tr : List (Shared R ι × Act ι)) (s : Shared R ι) : Prop where
  result : s.result = lib.next^[asked tr] r
  delivered : delivered lib tr = rows.take (asked tr)
  /-- An object without the result has no row, and the others know the columns. -/
  object : ∀ i, (s.object i).result_ = false ∧ (s.object i).row_ = none ∧
      (s.object i).field_index_map_ = (fun _ => none) ∨
    (s.object i).num_fields_ = names.length ∧
      (s.object i).field_index_map_ = fun name => names.idxOf? name
  row : ∀ i, ∀ row ∈ (s.object i).row_, row ∈ DBResult.delivered lib tr

omit [DecidableEq ι] in
theorem asked_snoc (tr : List (Shared R ι × Act ι)) (s : Shared R ι) (a : Act ι) :
    asked (tr ++ [(s, a)]) = asked tr + (asks s a).toNat := by
  cases h : asks s a <;> simp [asked, h]

omit [DecidableEq ι] in
theorem delivered_snoc (tr : List (Shared R ι × Act ι)) (s : Shared R ι) (a : Act ι) :
    delivered lib (tr ++ [(s, a)]) = delivered lib tr ++ (fetched lib s a).toList := by
  cases h : fetched lib s a <;> simp [delivered, h]

/-- What a call does. -/
inductive Does (lib : MysqlResults R) (s : Shared R ι) : Act ι → Shared R ι → Prop
  | fetch {i : ι} (hi : (s.object i).result_ = true) :
      Does lib s (.nextRow i) ⟨lib.next s.result, Function.update s.object i
        { s.object i with row_ := (lib.mysql_fetch_row s.result).1 }⟩
  /-- The object has no result. -/
  | nothing {i : ι} (hi : (s.object i).result_ = false) : Does lib s (.nextRow i) s
  | copy {i j : ι} : Does lib s (.copy i j) ⟨s.result, Function.update s.object i (s.object j)⟩

theorem does_of_step {s s' : Shared R ι} {a : Act ι} (h : (system lib ι).step s a s') :
    Does lib s a s' := by
  rw [system, LTS.ofFun_step] at h
  cases a with
  | nextRow i =>
    cases hi : (s.object i).result_ with
    | true =>
      rw [step, nextRow_of_result hi] at h
      exact Option.some.inj h ▸ .fetch hi
    | false =>
      rw [step, nextRow_of_null hi] at h
      dsimp only at h
      rw [Function.update_eq_self] at h
      exact Option.some.inj h ▸ .nothing hi
  | copy i j => exact Option.some.inj h ▸ .copy

omit [DecidableEq ι] in
theorem fetched_of_result {s : Shared R ι} {i : ι} (hi : (s.object i).result_ = true) :
    fetched lib s (.nextRow i) = (lib.mysql_fetch_row s.result).1 := by
  rw [fetched, nextRow_of_result hi]
  cases (lib.mysql_fetch_row s.result).1 <;> rfl

omit [DecidableEq ι] in
theorem fetched_of_null {s : Shared R ι} {i : ι} (hi : (s.object i).result_ = false) :
    fetched lib s (.nextRow i) = none := by
  rw [fetched, nextRow_of_null hi]
  rfl

theorem reading_start (h : lib.Stored r names rows) (i : ι) :
    Reading lib r names rows [] (start lib r i) := by
  have hobject : ∀ j, (start lib r i).object j = ofResult lib (some r) ∨
      (start lib r i).object j = {} := by
    intro j
    simp only [start]
    by_cases hji : j = i
    · exact Or.inl (by rw [hji, Function.update_self])
    · exact Or.inr (by rw [Function.update_of_ne hji])
  refine ⟨rfl, rfl, fun j => ?_, fun j => ?_⟩
  · rcases hobject j with hj | hj <;> rw [hj]
    · exact Or.inr ⟨h.num_fields, field_index_map_ofResult h⟩
    · exact Or.inl ⟨rfl, rfl, rfl⟩
  · rcases hobject j with hj | hj <;> rw [hj] <;> exact nofun

theorem Reading.step (h : lib.Stored r names rows) {tr : List (Shared R ι × Act ι)}
    {s s' : Shared R ι} {a : Act ι} (hs : Reading lib r names rows tr s) (hst : Does lib s a s') :
    Reading lib r names rows (tr ++ [(s, a)]) s' := by
  cases hst with
  | @fetch i hi =>
    have hrow : (lib.mysql_fetch_row s.result).1 = rows[asked tr]? := by
      rw [hs.result]
      exact h.row _
    have hnew : DBResult.delivered lib (tr ++ [(s, .nextRow i)]) = rows.take (asked tr + 1) := by
      rw [delivered_snoc, fetched_of_result hi, hrow, hs.delivered, List.take_add_one]
    have hasked : asked (tr ++ [(s, .nextRow i)]) = asked tr + 1 := by
      rw [asked_snoc, asks, hi, Bool.toNat_true]
    refine ⟨?_, by rw [hnew, hasked], fun j => ?_, fun j => ?_⟩
    · rw [hasked, Function.iterate_succ_apply', ← hs.result]
    · by_cases hji : j = i
      · subst hji
        simp only [Function.update_self]
        rcases hs.object j with ⟨hnull, -⟩ | hcolumns
        · rw [hi] at hnull
          cases hnull
        · exact Or.inr hcolumns
      · simp only [Function.update_of_ne hji]
        exact hs.object j
    · by_cases hji : j = i
      · subst hji
        simp only [Function.update_self]
        intro row hmem
        rw [delivered_snoc, fetched_of_result hi]
        exact List.mem_append_right _ (Option.mem_toList.2 hmem)
      · simp only [Function.update_of_ne hji]
        intro row hmem
        rw [delivered_snoc]
        exact List.mem_append_left _ (hs.row j row hmem)
  | @nothing i hi =>
    have hasked : asked (tr ++ [(s, .nextRow i)]) = asked tr := by
      rw [asked_snoc, asks, hi]
      rfl
    have hnew : DBResult.delivered lib (tr ++ [(s, .nextRow i)]) = DBResult.delivered lib tr := by
      rw [delivered_snoc, fetched_of_null hi]
      exact List.append_nil _
    refine ⟨?_, ?_, hs.object, ?_⟩
    · rw [hasked]
      exact hs.result
    · rw [hnew, hasked]
      exact hs.delivered
    · rw [hnew]
      exact hs.row
  | @copy i j =>
    have hasked : asked (tr ++ [(s, .copy i j)]) = asked tr := by
      rw [asked_snoc]
      rfl
    have hnew : DBResult.delivered lib (tr ++ [(s, .copy i j)]) = DBResult.delivered lib tr := by
      rw [delivered_snoc]
      exact List.append_nil _
    have hcopy : ∀ k, ∃ l, Function.update s.object i (s.object j) k = s.object l := by
      intro k
      by_cases hki : k = i
      · exact ⟨j, hki ▸ Function.update_self ..⟩
      · exact ⟨k, Function.update_of_ne hki ..⟩
    refine ⟨?_, ?_, fun k => ?_, fun k => ?_⟩
    · rw [hasked]
      exact hs.result
    · rw [hnew, hasked]
      exact hs.delivered
    · obtain ⟨l, hl⟩ := hcopy k
      simp only [hl]
      exact hs.object l
    · obtain ⟨l, hl⟩ := hcopy k
      simp only [hl, hnew]
      exact hs.row l

/-- **Every row goes to one call, in order, whichever object it is called on**: after `asked tr`
calls the rows delivered are as many first rows of the result.  The current row of an object is
one of them, and a name stands for its first column. -/
theorem rows_once (h : lib.Stored r names rows) {i : ι} {tr : List (Shared R ι × Act ι)}
    {s : Shared R ι} (hrun : (system lib ι).Run (start lib r i) tr s) :
    delivered lib tr = rows.take (asked tr) ∧
      (∀ j, ∀ row ∈ (s.object j).row_, row ∈ delivered lib tr) ∧
      ∀ j name, (s.object j).getRaw name =
        (s.object j).row_.bind fun row => ((names.idxOf? name).bind (row[·]?)).join := by
  have hs : Reading lib r names rows tr s :=
    hrun.invariant (reading_start h i) fun _ hs hst => hs.step h (does_of_step hst)
  refine ⟨hs.delivered, hs.row, fun j name => ?_⟩
  rcases hs.object j with ⟨-, hnull, hmap⟩ | ⟨hnum, hmap⟩
  · simp [getRaw, hmap, hnull]
  · exact getRaw_eq hmap hnum name

/-- A result kept as the list of the rows to come. -/
def listResults : MysqlResults (List StdString × List MysqlRow) where
  mysql_num_fields r := r.1.length
  mysql_fetch_fields r := r.1
  mysql_fetch_row r := (r.2.head?, r.1, r.2.tail)

theorem stored_list {names : List StdString} {rows : List MysqlRow}
    (h : ∀ row ∈ rows, row.length = names.length) :
    listResults.Stored (names, rows) names rows := by
  have hnext : ∀ k, listResults.next^[k] (names, rows) = (names, rows.drop k) := by
    intro k
    induction k with
    | zero => rfl
    | succ k ih =>
      rw [Function.iterate_succ_apply', ih]
      simp [MysqlResults.next, listResults]
  refine ⟨rfl, rfl, fun k => ?_, h⟩
  rw [hnext]
  exact List.head?_drop

/-- A copy is asked for the first row and the object for the second one; there are two columns of
one name. -/
theorem rows_once_copied : ∃ tr s, (system listResults Bool).Run
      (start listResults ([[97], [97]], [[some [49], none], [some [50], none]]) false) tr s ∧
    delivered listResults tr = [[some [49], none], [some [50], none]] ∧
    (s.object true).getRaw [97] = some [49] := by
  obtain ⟨tr, s, hrun, hasked, hrow⟩ := Run.exists_of_trace (step listResults)
    (start listResults ([[97], [97]], [[some [49], none], [some [50], none]]) false)
    [.copy true false, .nextRow true, .nextRow false]
    (fun tr s => asked tr = 2 ∧ (s.object true).row_ = some [some [49], none]) (by decide)
  obtain ⟨hall, -, hget⟩ := rows_once (stored_list (by decide)) hrun
  refine ⟨tr, s, hrun, by rw [hall, hasked]; rfl, ?_⟩
  rw [hget, hrow]
  decide

end DBResult

end LiteMonitor
