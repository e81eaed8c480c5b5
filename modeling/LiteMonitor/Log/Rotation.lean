import LiteMonitor.Log.RotatingFile

/-!
# The records in the files

What a sink writes are whole records, one for each message.  They are followed through the files
while the sink rotates them, while its calls fail, and while the stream writes its buffer.

* `SinkAct`, `SinkWorld.act` : what is done to a sink; `SinkWorld.writes` : the record written.
* `Ordered w bytes` : the files hold some of `bytes`, in this order; `Ordered.act` : **an action
  keeps the bytes in order**, whatever the system answers.
* `Holds w blocks` : the files hold whole records, the file with the number `i` those in `blocks i`.
* `SinkAct.Streams` : the calls on the stream succeed; `Holds.act` : **then an action keeps the
  records whole and in order**, whatever else fails.
* `Os.Works`, `SinkAct.Works` : all calls of the system succeed.
* `Retains` : what holds besides in that case; `Retains.act` : **an action keeps it**, and a record
  is lost only when the files are full.
-/

namespace LiteMonitor

open Generations Throwing

/-- What is done to a sink, with its mutex held, or to its stream. -/
inductive SinkAct where
  | log (os : Os) (formatted : Bytes)
  | flush (os : Os)
  /-- The stream writes the front of its buffer to the file. -/
  | settle (k : ℕ)

namespace SinkWorld

/-- What the action does; there is no step if the behaviour is undefined. -/
def act (w : SinkWorld) : SinkAct → Option SinkWorld
  | .log os formatted =>
    match on (RotatingFile.sink_it_ os formatted) w with
    | (.error .undefined, _) => none
    | (_, w') => some w'
  | .flush os => some (on (FileHelper.flush os) w).2
  | .settle k => some (w.drained k)

/-- The record that the action writes. -/
def writes (w : SinkWorld) : SinkAct → List Bytes
  | .log os formatted =>
    match (on (RotatingFile.sink_it_ os formatted) w).1 with
    | .ok () => [formatted]
    | .error _ => []
  | _ => []

end SinkWorld

/-- The record that the action is to write. -/
def SinkAct.logged : SinkAct → List Bytes
  | .log _ formatted => [formatted]
  | _ => []

/-- The calls on the stream succeed. -/
def SinkAct.Streams : SinkAct → Prop
  | .log os _ => os.Streams
  | .flush os => os.fflush = none
  | .settle _ => True

/-- What an action does to the sink and its files. -/
inductive Acts (w : SinkWorld) : SinkAct → SinkWorld → Prop
  | silent {a : SinkAct} {w' : SinkWorld} (hwrites : w.writes a = []) (hview : w'.view = w.view)
      (hcurrent : w'.sink.current_size_ = w.sink.current_size_)
      (hfd : w'.fd_ = none ↔ w.fd_ = none) (hbuffer : w'.fd_.getD [] <:+ w.fd_.getD []) :
      Acts w a w'
  | failed {os : Os} {f : Failure} (hflush : os.fflush = some f)
      (hloses : Loses w.sink.max_files_ [] w (w.losing f)) : Acts w (.flush os) (w.losing f)
  | logged {os : Os} {formatted : Bytes} {w' : SinkWorld}
      (hwrites : w.writes (.log os formatted) = [formatted])
      (hsinks : Sinks os formatted w (.ok (), w')) : Acts w (.log os formatted) w'
  | thrown {os : Os} {formatted : Bytes} {w' : SinkWorld} {what : LogLine}
      (hwrites : w.writes (.log os formatted) = [])
      (hsinks : Sinks os formatted w (.error (.spdlog_ex what), w')) : Acts w (.log os formatted) w'

theorem acts_drained {w : SinkWorld} (hname : w.filename_ = w.sink.base_filename_) {a : SinkAct}
    (hwrites : w.writes a = []) (k : ℕ) : Acts w a (w.drained k) := by
  refine .silent hwrites (view_drained hname k) (current_size_drained k) ?_ ?_
  · rw [fd_drained, Option.map_eq_none_iff]
  · rw [fd_drained]
    cases w.fd_ with
    | none => exact List.suffix_rfl
    | some b => exact List.drop_suffix k b

theorem act_spec {w w' : SinkWorld} {a : SinkAct} (hname : w.filename_ = w.sink.base_filename_)
    (h : w.act a = some w') : Acts w a w' ∧ Framed w w' := by
  cases a with
  | log os formatted =>
    obtain ⟨hsinks, hframe⟩ := sink_it_spec os formatted hname
    rcases hr : on (RotatingFile.sink_it_ os formatted) w with ⟨r, v⟩
    rw [SinkWorld.act, hr] at h
    rw [hr] at hsinks hframe
    match r, h with
    | .ok (), h =>
      obtain rfl : v = w' := Option.some.inj h
      exact ⟨.logged (by rw [SinkWorld.writes, hr]) hsinks, hframe⟩
    | .error (.spdlog_ex what), h =>
      obtain rfl : v = w' := Option.some.inj h
      exact ⟨.thrown (by rw [SinkWorld.writes, hr]) hsinks, hframe⟩
  | flush os =>
    rw [SinkWorld.act] at h
    cases hflush : os.fflush with
    | none =>
      rw [flush_of_none hflush] at h
      obtain rfl : w.flushed = w' := Option.some.inj h
      exact ⟨acts_drained hname rfl _, framed_drained hname _⟩
    | some f =>
      rw [flush_of_some hflush] at h
      obtain rfl : w.losing f = w' := Option.some.inj h
      exact ⟨.failed hflush (loses_losing hname f), framed_losing hname f⟩
  | settle k =>
    obtain rfl : w.drained k = w' := Option.some.inj h
    exact ⟨acts_drained hname rfl k, framed_drained hname k⟩

/-- **Whatever the system answers, an action adds no more than its record.** -/
theorem Acts.loses {w w' : SinkWorld} {a : SinkAct} (h : Acts w a w') :
    Loses w.sink.max_files_ a.logged.flatten w w' := by
  cases h with
  | silent hwrites hview hcurrent hfd hbuffer =>
    refine ⟨?_, hbuffer.sublist.trans (List.sublist_append_left _ _)⟩
    rw [hview]
    exact List.sublist_append_left _ _
  | failed hflush hloses => exact hloses
  | @logged os formatted _ hwrites hsinks =>
    have hrecord : (SinkAct.log os formatted).logged.flatten = formatted := List.flatten_singleton
    rw [hrecord]
    exact hsinks.loses
  | @thrown os formatted _ what hwrites hsinks =>
    have hrecord : (SinkAct.log os formatted).logged.flatten = formatted := List.flatten_singleton
    rw [hrecord]
    exact hsinks.loses

/-! ### The bytes -/

/-- The files, with what is in the buffer, hold some of `bytes` in this order. -/
structure Ordered (w : SinkWorld) (bytes : Bytes) : Prop where
  filename : w.filename_ = w.sink.base_filename_
  kept : (kept w.sink.max_files_ w.view).Sublist bytes

/-- **An action keeps the bytes in order.** -/
theorem Ordered.act {w w' : SinkWorld} {bytes : Bytes} (h : Ordered w bytes) {a : SinkAct}
    (hact : w.act a = some w') : Ordered w' (bytes ++ a.logged.flatten) := by
  obtain ⟨hacts, hframe⟩ := act_spec h.filename hact
  refine ⟨hframe.filename.trans (h.filename.trans hframe.base.symm), ?_⟩
  rw [hframe.max_files]
  exact hacts.loses.kept.trans (h.kept.append (List.Sublist.refl _))

/-! ### Whole records -/

/-- The files hold whole records; `blocks i` are those in the file with the number `i`. -/
structure Holds (w : SinkWorld) (blocks : ℕ → Option (List Bytes)) : Prop where
  filename : w.filename_ = w.sink.base_filename_
  view : w.view = fun i => (blocks i).map List.flatten
  /-- A file that is too long is one record. -/
  bounded : ∀ i bs, blocks i = some bs → bs.flatten.length ≤ w.sink.max_size_ ∨ bs.flatten ∈ bs
  /-- The size is known while the file is open. -/
  current : w.fd_ ≠ none → ∃ bs, blocks 0 = some bs ∧ bs.flatten.length = w.sink.current_size_

section Holds

variable {w w' : SinkWorld} {blocks blocks' : ℕ → Option (List Bytes)}

theorem Holds.next (h : Holds w blocks) (hframe : Framed w w')
    (hview : w'.view = fun i => (blocks' i).map List.flatten)
    (hbounded : ∀ i bs, blocks' i = some bs →
      (∃ j, blocks j = some bs) ∨ bs.flatten.length ≤ w.sink.max_size_ ∨ bs.flatten ∈ bs)
    (hcurrent : w'.fd_ ≠ none →
      ∃ bs, blocks' 0 = some bs ∧ bs.flatten.length = w'.sink.current_size_) :
    Holds w' blocks' := by
  refine ⟨?_, hview, fun i bs hi => ?_, hcurrent⟩
  · rw [hframe.filename, h.filename, hframe.base]
  · rw [hframe.max_size]
    rcases hbounded i bs hi with ⟨j, hj⟩ | hbs
    · exact h.bounded j bs hj
    · exact hbs

theorem Holds.view_moved (h : Holds w blocks) (os : Os) (n : ℕ) (bs : List Bytes) :
    Function.update (moveUp os.rename_file_ n w.view).2 0 (some bs.flatten) = fun i =>
      (Function.update (moveUp os.rename_file_ n blocks).2 0 (some bs) i).map List.flatten := by
  rw [h.view, moveUp_map]
  funext i
  by_cases hi : i = 0
  · subst hi
    simp
  · rw [Function.update_of_ne hi, Function.update_of_ne hi]

theorem Holds.moved_iff (h : Holds w blocks) (os : Os) (n : ℕ) :
    (moveUp os.rename_file_ n w.view).1 = (moveUp os.rename_file_ n blocks).1 := by
  rw [h.view, moveUp_map]

theorem Holds.rotate (h : Holds w blocks) (hframe : Framed w w') {os : Os} {n : ℕ} (bs : List Bytes)
    (hview : w'.view = Function.update (moveUp os.rename_file_ n w.view).2 0 (some bs.flatten))
    (hbs : bs.flatten.length ≤ w.sink.max_size_ ∨ bs.flatten ∈ bs)
    (hcurrent : w'.fd_ ≠ none → bs.flatten.length = w'.sink.current_size_) :
    Holds w' (Function.update (moveUp os.rename_file_ n blocks).2 0 (some bs)) := by
  refine h.next hframe (hview.trans (h.view_moved os n bs)) (fun i cs hi => ?_)
    fun hfd => ⟨bs, Function.update_self .., hcurrent hfd⟩
  by_cases hi₀ : i = 0
  · rw [hi₀, Function.update_self, Option.some.injEq] at hi
    exact Or.inr (hi ▸ hbs)
  · rw [Function.update_of_ne hi₀] at hi
    exact Or.inl (exists_of_moveUp hi)

end Holds

/-- What a record that is written does to the records in the files. -/
inductive Wrote (os : Os) (n max_size : ℕ) (formatted : Bytes) (blocks : ℕ → Option (List Bytes)) :
    (ℕ → Option (List Bytes)) → Prop
  | appended {bs : List Bytes} (hbs : blocks 0 = some bs) :
      Wrote os n max_size formatted blocks (Function.update blocks 0 (some (bs ++ [formatted])))
  | rotated {bs : List Bytes} (hbs : blocks 0 = some bs)
      (hfull : max_size < bs.flatten.length + formatted.length)
      (hmoved : (moveUp os.rename_file_ n blocks).1 = true) :
      Wrote os n max_size formatted blocks
        (Function.update (moveUp os.rename_file_ n blocks).2 0 (some [formatted]))

/-- **A record that is written comes last, and the oldest file is lost at most.** -/
theorem Wrote.suffix {os : Os} {n max_size : ℕ} {formatted : Bytes}
    {blocks blocks' : ℕ → Option (List Bytes)} (h : Wrote os n max_size formatted blocks blocks') :
    kept n blocks' <:+ kept n blocks ++ [formatted] := by
  cases h with
  | appended hbs => rw [kept_append n hbs]
  | rotated hbs hfull hmoved => exact kept_rotate_suffix hmoved _

section Act

variable {w w' : SinkWorld} {blocks : ℕ → Option (List Bytes)} {os : Os} {formatted : Bytes}

theorem Holds.logged (h : Holds w blocks) (hframe : Framed w w') (hstreams : os.Streams)
    (hsinks : Sinks os formatted w (.ok (), w')) : ∃ blocks', Holds w' blocks' ∧
      Wrote os w.sink.max_files_ w.sink.max_size_ formatted blocks blocks' := by
  cases hsinks with
  | appended hfd hfd' hbuffer hroom hcurrent hview =>
    obtain ⟨bs, hbs, hsize⟩ := h.current hfd
    have hlen : (bs ++ [formatted]).flatten.length = bs.flatten.length + formatted.length := by simp
    refine ⟨_, h.next hframe ?_ (fun i cs hi => ?_) fun _ => ⟨_, Function.update_self .., ?_⟩,
      .appended hbs⟩
    · rw [hview, h.view]
      funext i
      by_cases hi : i = 0
      · subst hi
        simp [hbs]
      · rw [Function.update_of_ne hi, Function.update_of_ne hi]
    · by_cases hi₀ : i = 0
      · rw [hi₀, Function.update_self, Option.some.injEq] at hi
        subst hi
        right
        rcases hroom with hroom | hempty
        · exact Or.inl (by rw [hlen, hsize]; exact hroom)
        · -- the record is the first one in the file
          have hnil : bs.flatten = [] := by
            rw [h.view] at hempty
            simpa [hbs] using hempty
          exact Or.inr (by simp [hnil])
      · rw [Function.update_of_ne hi₀] at hi
        exact Or.inl ⟨i, hi⟩
    · rw [hlen, hsize, hcurrent]
  | rotated hfd hfd' hfull hcloses hmoved hcurrent hview =>
    obtain ⟨bs, hbs, hsize⟩ := h.current hfd
    rw [hcloses.view hstreams.fclose] at hmoved hview
    rw [h.moved_iff] at hmoved
    have hone : [formatted].flatten = formatted := List.flatten_singleton
    refine ⟨_, h.rotate hframe [formatted] ?_ (Or.inr ?_) fun _ => ?_,
      .rotated hbs (hsize ▸ hfull) hmoved⟩
    · rw [hone, hview]
    · rw [hone]
      exact List.mem_singleton_self _
    · rw [hone, hcurrent]

/-- When something is thrown, the records that are left are whole and in order. -/
theorem Holds.thrown (h : Holds w blocks) (hframe : Framed w w') (hstreams : os.Streams)
    {what : LogLine}
    (hsinks : Sinks os formatted w (.error (.spdlog_ex what), w')) : ∃ blocks', Holds w' blocks' ∧
      (kept w.sink.max_files_ blocks').Sublist (kept w.sink.max_files_ blocks) := by
  cases hsinks with
  | renameFailed _ hfd hfd' hcloses hmoved hcurrent hview =>
    rw [hcloses.view hstreams.fclose] at hview
    exact ⟨_, h.rotate hframe [] hview (Or.inl (Nat.zero_le _)) fun _ => hcurrent.symm,
      (kept_clear_sublist ..).trans kept_moveUp_sublist⟩
  | reopenFailed _ hfd hfd' hcloses hclosed hview =>
    rw [hcloses.view hstreams.fclose] at hview
    rcases hview with hview | hview
    · refine ⟨(moveUp os.rename_file_ w.sink.max_files_ blocks).2,
        h.next hframe ?_ (fun i bs hi => Or.inl (exists_of_moveUp hi)) (absurd hfd'),
        kept_moveUp_sublist⟩
      rw [hview, h.view, moveUp_map]
    · exact ⟨_, h.rotate hframe [] hview (Or.inl (Nat.zero_le _)) (absurd hfd'),
        (kept_clear_sublist ..).trans kept_moveUp_sublist⟩
  | streamFailed _ hfails hloses => exact absurd hstreams hfails
  | closed _ hfd => exact ⟨_, h, List.Sublist.refl _⟩

theorem Holds.silent (h : Holds w blocks) (hframe : Framed w w') (hview : w'.view = w.view)
    (hcurrent : w'.sink.current_size_ = w.sink.current_size_) (hfd : w'.fd_ = none ↔ w.fd_ = none) :
    Holds w' blocks := by
  refine h.next hframe (hview.trans h.view) (fun i bs hi => Or.inl ⟨i, hi⟩) ?_
  rw [hcurrent, Ne, hfd]
  exact h.current

/-- **An action keeps the records whole and in order** if the calls on the stream succeed. -/
theorem Holds.act (h : Holds w blocks) {a : SinkAct} (hstreams : a.Streams)
    (hact : w.act a = some w') :
    ∃ blocks', Holds w' blocks' ∧
      (kept w.sink.max_files_ blocks').Sublist (kept w.sink.max_files_ blocks ++ w.writes a) := by
  obtain ⟨hacts, hframe⟩ := act_spec h.filename hact
  cases hacts with
  | silent hwrites hview hcurrent hfd =>
    refine ⟨blocks, h.silent hframe hview hcurrent hfd, ?_⟩
    rw [hwrites, List.append_nil]
  | failed hflush =>
    have hnone : _ = none := hstreams
    rw [hflush] at hnone
    cases hnone
  | logged hwrites hsinks =>
    obtain ⟨blocks', hholds, hwrote⟩ := h.logged hframe hstreams hsinks
    rw [hwrites]
    exact ⟨blocks', hholds, hwrote.suffix.sublist⟩
  | thrown hwrites hsinks =>
    rw [hwrites, List.append_nil]
    exact h.thrown hframe hstreams hsinks

end Act

/-! ### While the calls of the system succeed -/

/-- The calls of the system succeed, at the second attempt and in the last round at the latest. -/
structure Os.Works (os : Os) : Prop where
  streams : os.Streams
  renames : ∀ i, (os.rename_file_ i).1.moved = true ∨ (os.rename_file_ i).2.moved = true
  opens : os.opens = true

def SinkAct.Works : SinkAct → Prop
  | .log os _ => os.Works
  | .flush os => os.fflush = none
  | .settle _ => True

theorem SinkAct.Works.streams {a : SinkAct} (h : a.Works) : a.Streams := by
  cases a with
  | log os formatted => exact Os.Works.streams h
  | flush os => exact h
  | settle k => trivial

/-- The files above the base file are full up to the number `m`, where records of at most `r` bytes
are written. -/
def Full (max_size r m : ℕ) (blocks : ℕ → Option (List Bytes)) : Prop :=
  ∀ i, 1 ≤ i → i ≤ m → ∃ bs, blocks i = some bs ∧ max_size < bs.flatten.length + r

/-- The records written are in full files and the base file, or all files are full. -/
def Room (n max_size r : ℕ) (written : List Bytes) (blocks : ℕ → Option (List Bytes)) : Prop :=
  ∃ m ≤ n, Full max_size r m blocks ∧ (written <:+ kept m blocks ∨ m = n)

section Room

variable {os : Os} {n max_size r m : ℕ} {formatted : Bytes}
  {blocks blocks' : ℕ → Option (List Bytes)}

theorem Full.rotate (h : Full max_size r m blocks) (hr : formatted.length ≤ r) {bs : List Bytes}
    (hbs : blocks 0 = some bs) (hfull : max_size < bs.flatten.length + formatted.length)
    (hmoved : (moveUp os.rename_file_ n blocks).1 = true) (c : List Bytes) :
    Full max_size r (min (m + 1) n)
      (Function.update (moveUp os.rename_file_ n blocks).2 0 (some c)) := by
  intro i hi him
  obtain ⟨j, rfl⟩ : ∃ j, i = j + 1 := ⟨i - 1, by omega⟩
  rw [Function.update_of_ne (by omega)]
  by_cases hj : j = 0
  · subst hj
    rw [moveUp_succ (by omega) hmoved (by rw [hbs]; exact Option.some_ne_none _)]
    exact ⟨bs, hbs, by omega⟩
  · obtain ⟨cs, hcs, hlen⟩ := h j (by omega) (by omega)
    rw [moveUp_succ (by omega) hmoved (by rw [hcs]; exact Option.some_ne_none _)]
    exact ⟨cs, hcs, hlen⟩

theorem Wrote.room (h : Wrote os n max_size formatted blocks blocks') (hr : formatted.length ≤ r)
    {written : List Bytes} (hroom : Room n max_size r written blocks) :
    Room n max_size r (written ++ [formatted]) blocks' := by
  obtain ⟨m, hm, hfull, hwritten⟩ := hroom
  cases h with
  | appended hbs =>
    refine ⟨m, hm, fun i hi him => ?_, hwritten.imp_left fun hsuffix => ?_⟩
    · rw [Function.update_of_ne (by omega)]
      exact hfull i hi him
    · rw [kept_append m hbs]
      exact List.suffix_append_self_iff.2 hsuffix
  | @rotated bs hbs hover hmoved =>
    refine ⟨min (m + 1) n, min_le_right _ _, hfull.rotate hr hbs hover hmoved _, ?_⟩
    rcases Nat.lt_or_ge m n with hlt | hge
    · left
      have hsome : ∀ i ≤ m, blocks i ≠ none := by
        intro i hi
        by_cases hi₀ : i = 0
        · rw [hi₀, hbs]
          exact Option.some_ne_none _
        · obtain ⟨cs, hcs, -⟩ := hfull i (by omega) hi
          rw [hcs]
          exact Option.some_ne_none _
      have hsuffix : written <:+ kept m blocks := hwritten.resolve_right (by omega)
      rw [min_eq_left (by omega), kept_rotate_shift hlt hmoved hsome]
      exact List.suffix_append_self_iff.2 hsuffix
    · exact Or.inr (by omega)

end Room

/-- The sink while the calls of the system succeed: `old` was in its files, `written` is new. -/
structure Retains (r : ℕ) (old written : List Bytes) (w : SinkWorld)
    (blocks : ℕ → Option (List Bytes)) : Prop where
  holds : Holds w blocks
  filename : w.filename_ ≠ []
  fd : w.fd_ ≠ none
  suffix : kept w.sink.max_files_ blocks <:+ old ++ written
  room : Room w.sink.max_files_ w.sink.max_size_ r written blocks

section Retains

variable {w w' : SinkWorld} {a : SinkAct} {blocks : ℕ → Option (List Bytes)} {os : Os}
  {formatted : Bytes}

theorem Os.Works.sinks (hworks : os.Works) (hname : w.filename_ ≠ []) (hfd : w.fd_ ≠ none)
    {r : Except LogFault Unit × SinkWorld} (h : Sinks os formatted w r) :
    r.1 = .ok () ∧ r.2.fd_ ≠ none := by
  cases h with
  | appended hfd hfd' => exact ⟨rfl, hfd' ▸ Option.some_ne_none _⟩
  | rotated hfd hfd' => exact ⟨rfl, hfd' ▸ Option.some_ne_none _⟩
  | renameFailed what hfd hfd' hcloses hmoved =>
    rw [moveUp_fst hworks.renames] at hmoved
    cases hmoved
  | reopenFailed what hfd hfd' hcloses hclosed =>
    have hopens := hclosed hname
    rw [hworks.opens] at hopens
    cases hopens
  | streamFailed what hfails => exact absurd hworks.streams hfails
  | closed what hnone => exact absurd hnone hfd
  | undefined hnone => exact absurd hnone hfd

/-- **Every action is defined, and writes its record.** -/
theorem SinkAct.Works.act (hworks : a.Works) (hbase : w.filename_ = w.sink.base_filename_)
    (hname : w.filename_ ≠ []) (hfd : w.fd_ ≠ none) :
    ∃ w', w.act a = some w' ∧ w.writes a = a.logged ∧ w'.fd_ ≠ none := by
  cases a with
  | log os formatted =>
    obtain ⟨hok, hopen⟩ := Os.Works.sinks hworks hname hfd (sink_it_spec os formatted hbase).1
    rcases hr : on (RotatingFile.sink_it_ os formatted) w with ⟨x, v⟩
    rw [hr] at hok hopen
    dsimp only at hok hopen
    subst hok
    refine ⟨v, ?_, ?_, hopen⟩
    · rw [SinkWorld.act, hr]
    · rw [SinkWorld.writes, hr]
      rfl
  | flush os =>
    refine ⟨w.flushed, ?_, rfl, ?_⟩
    · rw [SinkWorld.act, flush_of_none hworks]
    · rw [fd_flushed, Ne, Option.map_eq_none_iff]
      exact hfd
  | settle k =>
    refine ⟨w.drained k, rfl, rfl, ?_⟩
    rw [fd_drained, Ne, Option.map_eq_none_iff]
    exact hfd

/-- **While the calls of the system succeed, every record is written, and one is lost only when the
files are full.** -/
theorem Retains.act {r : ℕ} {old written : List Bytes} (h : Retains r old written w blocks)
    (hworks : a.Works) (hr : ∀ b ∈ a.logged, b.length ≤ r) (hact : w.act a = some w') :
    ∃ blocks', Retains r old (written ++ a.logged) w' blocks' := by
  obtain ⟨v, hv, hwrites', hopen⟩ := hworks.act h.holds.filename h.filename h.fd
  obtain rfl : v = w' := Option.some.inj (hv.symm.trans hact)
  obtain ⟨hacts, hframe⟩ := act_spec h.holds.filename hact
  have hname : v.filename_ ≠ [] := hframe.filename ▸ h.filename
  cases hacts with
  | silent hwrites hview hcurrent hfd =>
    have hlogged : a.logged = [] := hwrites'.symm.trans hwrites
    rw [hlogged, List.append_nil]
    refine ⟨blocks, h.holds.silent hframe hview hcurrent hfd, hname, hopen, ?_, ?_⟩
    · rw [hframe.max_files]
      exact h.suffix
    · rw [hframe.max_files, hframe.max_size]
      exact h.room
  | failed hflush =>
    have hnone : _ = none := hworks
    rw [hflush] at hnone
    cases hnone
  | @logged os formatted _ hwrites hsinks =>
    obtain ⟨blocks', hholds, hwrote⟩ := h.holds.logged hframe (Os.Works.streams hworks) hsinks
    have hlogged : (SinkAct.log os formatted).logged = [formatted] := rfl
    rw [hlogged] at hr ⊢
    refine ⟨blocks', hholds, hname, hopen, ?_, ?_⟩
    · rw [hframe.max_files, ← List.append_assoc]
      exact hwrote.suffix.trans (List.suffix_append_self_iff.2 h.suffix)
    · rw [hframe.max_files, hframe.max_size]
      exact hwrote.room (hr formatted (List.mem_singleton_self _)) h.room
  | thrown hwrites hsinks =>
    rw [hwrites'] at hwrites
    cases hwrites

end Retains

end LiteMonitor
