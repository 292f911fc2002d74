import PackedStore.Proofs.Session.Steady

/-!
# The latest panic

The text of the latest panic changes with each call that is cut short and with nothing else. It is
handed out as bytes closed by a zero. The room there is decides how many of them are copied, and
nothing behind the zero is touched.
-/

namespace PackedStore

namespace PanicText

/-! ## The bytes of a text -/

theorem toList_loop (packed : ByteArray) (index : Nat) (reversed : List UInt8) :
    ByteArray.toList.loop packed index reversed =
      reversed.reverse ++ packed.data.toList.drop index := by
  fun_induction ByteArray.toList.loop packed index reversed with
  | case1 index reversed inside induction =>
      have bounded : index < packed.data.toList.length := by simpa using inside
      have byte_eq : packed.get! index = packed.data.toList[index] := by
        rw [ByteArray.get!, getElem!_pos packed.data index inside, Array.getElem_toList]
      rw [induction, List.drop_eq_getElem_cons bounded, byte_eq]
      simp
  | case2 index reversed outside =>
      rw [List.drop_eq_nil_of_le (by simpa using Nat.le_of_not_lt outside), List.append_nil]

theorem toByteArray_bytes (text : String) : (bytes text).toByteArray = text.toUTF8 := by
  apply ByteArray.ext
  rw [List.data_toByteArray, bytes, ByteArray.toList, toList_loop]
  simp

/-- A text is read off its bytes. -/
theorem fromUTF8?_bytes (text : String) :
    String.fromUTF8? (bytes text).toByteArray = some text := by
  rw [toByteArray_bytes, String.toUTF8_eq_toByteArray, String.fromUTF8?, dif_pos text.isValidUTF8]
  rfl

/-! ## Copying -/

/-- The number of bytes that are copied into `capacity` places, which is also where the zero that
closes them goes. -/
def closing (text : String) (capacity : Nat) : Nat :=
  min (bytes text).length (capacity - 1)

/-- What a buffer holds once a text was copied into its first `capacity` places. -/
structure CopiedInto (text : String) (capacity : Nat) (buffer after : List UInt8) : Prop where
  /-- The buffer stays as long as it was. -/
  length_eq : after.length = buffer.length
  /-- First come bytes of the text. -/
  getElem?_of_lt : ∀ index < closing text capacity, after[index]? = (bytes text)[index]?
  /-- A zero closes them. -/
  getElem?_closing : after[closing text capacity]? = some 0
  /-- Every byte behind the zero is as it was. -/
  getElem?_of_gt : ∀ index, closing text capacity < index → after[index]? = buffer[index]?
  /-- So is every byte behind the first `capacity` places. -/
  getElem?_of_ge : ∀ index, capacity ≤ index → after[index]? = buffer[index]?

variable {text : String} {capacity : Nat} {buffer : List UInt8}

theorem copyInto_of_pos (positive : 0 < capacity) :
    copyInto text capacity buffer =
      (bytes text).take (closing text capacity) ++
        0 :: buffer.drop (closing text capacity + 1) := by
  have taken : ((bytes text).take (capacity - 1)).length = closing text capacity := by
    rw [List.length_take, closing, Nat.min_comm]
  rw [copyInto, if_neg (Nat.ne_of_gt positive)]
  simp only [taken]
  rw [closing, Nat.min_comm, ← List.take_eq_take_min]

theorem copiedInto_copyInto (positive : 0 < capacity) (room : capacity ≤ buffer.length) :
    CopiedInto text capacity buffer (copyInto text capacity buffer) := by
  have enough : closing text capacity ≤ (bytes text).length := Nat.min_le_left _ _
  have below : closing text capacity ≤ capacity - 1 := Nat.min_le_right _ _
  have taken : ((bytes text).take (closing text capacity)).length = closing text capacity :=
    List.length_take_of_le enough
  have behind : ∀ index, closing text capacity < index →
      (copyInto text capacity buffer)[index]? = buffer[index]? := by
    intro index beyond
    obtain ⟨further, rfl⟩ := Nat.exists_eq_add_of_lt beyond
    rw [copyInto_of_pos positive, List.getElem?_append_right (by omega), taken, Nat.add_assoc,
      Nat.add_sub_cancel_left, List.getElem?_cons_succ, List.getElem?_drop, Nat.add_right_comm]
    rfl
  refine ⟨?_, ?_, ?_, behind, fun index beyond => behind index (by omega)⟩
  · rw [copyInto_of_pos positive, List.length_append, taken, List.length_cons, List.length_drop]
    omega
  · intro index inside
    rw [copyInto_of_pos positive, List.getElem?_append_left (by omega),
      List.getElem?_take_of_lt inside]
  · rw [copyInto_of_pos positive, List.getElem?_append_right (by omega), taken, Nat.sub_self]
    rfl

/-- With room for the zero as well, the zero follows the last byte of the text. -/
theorem closing_of_lt (room : (bytes text).length < capacity) :
    closing text capacity = (bytes text).length :=
  Nat.min_eq_left (Nat.le_sub_one_of_lt room)

theorem CopiedInto.take_eq {after : List UInt8} (copied : CopiedInto text capacity buffer after)
    (room : (bytes text).length < capacity) : after.take (bytes text).length = bytes text := by
  apply List.ext_getElem?
  intro index
  rcases Nat.lt_or_ge index (bytes text).length with inside | outside
  · rw [List.getElem?_take_of_lt inside]
    exact copied.getElem?_of_lt index (closing_of_lt room ▸ inside)
  · rw [List.getElem?_take_eq_none outside, List.getElem?_eq_none outside]

end PanicText

namespace Session

variable {session : Session} {events : List Event}

/-! ## The text along a run -/

/-- No call among the events is cut short. -/
def Calm (session : Session) : List Event → Prop
  | [] => True
  | .call call :: events =>
      (session.reply call).status ≠ .panicked ∧ (session.call call).1.Calm events
  | .arm trap :: events => ({ session with trap := some trap } : Session).Calm events

/-- Unless no call is cut short, there is a latest one that is. -/
theorem calm_or_exists_latest (session : Session) (events : List Event) :
    session.Calm events ∨ ∃ earlier call later, events = earlier ++ .call call :: later ∧
      ((session.run earlier).reply call).status = .panicked ∧
      ((session.run earlier).call call).1.Calm later := by
  induction events generalizing session with
  | nil => exact .inl trivial
  | cons event events induction =>
      cases event with
      | arm trap =>
          rcases induction { session with trap := some trap } with
            calm | ⟨earlier, call, later, rfl, panicked, calm⟩
          · exact .inl calm
          · exact .inr ⟨.arm trap :: earlier, call, later, rfl, panicked, calm⟩
      | call made =>
          rcases induction (session.call made).1 with
            calm | ⟨earlier, call, later, rfl, panicked, calm⟩
          · by_cases panicked : (session.reply made).status = .panicked
            · exact .inr ⟨[], made, events, rfl, panicked, calm⟩
            · exact .inl ⟨panicked, calm⟩
          · exact .inr ⟨.call made :: earlier, call, later, rfl, panicked, calm⟩

/-- A call leaves the text of the latest panic as it was, unless the logger's panic cuts it short,
of which the text is then kept. -/
theorem Sound.panicText_call_cases (sound : session.Sound) (call : Call) :
    ((session.reply call).status ≠ .panicked ∧
        (session.call call).1.panicText = session.panicText) ∨
      ∃ trap, session.trap = some trap ∧ (session.reply call).status = .panicked ∧
        (session.call call).1.panicText = trap.payload.message := by
  cases set : session.trap with
  | none =>
      obtain ⟨whole, same, -⟩ := sound.calm_call set call
      exact .inl ⟨whole, same⟩
  | some trap =>
      have orderly := call.orderly (sound call.kind)
      rw [reply_eq, panicText_call, outcome, set]
      rcases Nat.lt_or_ge trap.spared
          (call.operation.perform (session.guarded call.kind) none).records.length with
        short | enough
      · obtain ⟨-, store, records, cut⟩ := Operation.perform_of_lt orderly.panic_eq short
        rw [cut]
        exact .inr ⟨trap, rfl, rfl, rfl⟩
      · rw [Operation.perform_of_le orderly.panic_eq enough]
        refine .inl ⟨?_, ?_⟩
        · rw [orderly.status_eq]
          exact call.verdict_ne_panicked _
        · rw [orderly.panic_eq]
          rfl

theorem Sound.panicText_call_of_ne (sound : session.Sound) {call : Call}
    (whole : (session.reply call).status ≠ .panicked) :
    (session.call call).1.panicText = session.panicText := by
  rcases sound.panicText_call_cases call with ⟨-, same⟩ | ⟨-, -, cut, -⟩
  · exact same
  · exact absurd cut whole

/-- Events of which none is a call cut short leave the text of the latest panic as it was. -/
theorem Sound.panicText_run_of_calm (sound : session.Sound) (calm : session.Calm events) :
    (session.run events).panicText = session.panicText := by
  induction events generalizing session with
  | nil => rfl
  | cons event events induction =>
      cases event with
      | arm trap => exact induction (sound.withTrap (some trap)) calm
      | call call =>
          obtain ⟨whole, calm⟩ := calm
          exact (induction (sound.call call) calm).trans (sound.panicText_call_of_ne whole)

/-- What the text of the latest panic is once some events have happened to a fresh session. -/
structure TellsLatestPanic (events : List Event) : Prop where
  /-- It is empty as long as no call was cut short. -/
  blank : start.Calm events → (start.run events).panicText = ""
  /-- If some call was, there is a latest one. -/
  calm_or_cut : start.Calm events ∨ ∃ earlier call later, events = earlier ++ .call call :: later ∧
    ((start.run earlier).reply call).status = .panicked ∧
    ((start.run earlier).call call).1.Calm later
  /-- Then it is the text of the logger's panic that cut this call short. -/
  latest : ∀ earlier call later, events = earlier ++ .call call :: later →
    ((start.run earlier).reply call).status = .panicked →
    ((start.run earlier).call call).1.Calm later →
    ∃ trap, (start.run earlier).trap = some trap ∧
      (∀ message, trap.payload = .text message → (start.run events).panicText = message) ∧
      (trap.payload = .other → (start.run events).panicText = "non-string panic payload")
  /-- No other call changes it. -/
  kept : ∀ call, ((start.run events).reply call).status ≠ .panicked →
    ((start.run events).call call).1.panicText = (start.run events).panicText

theorem tellsLatestPanic (events : List Event) : TellsLatestPanic events where
  blank := sound_start.panicText_run_of_calm
  calm_or_cut := start.calm_or_exists_latest events
  latest := by
    rintro earlier call later rfl panicked calm
    have sound : (start.run earlier).Sound := sound_start.run earlier
    rcases sound.panicText_call_cases call with ⟨whole, -⟩ | ⟨trap, set, -, told⟩
    · exact absurd panicked whole
    · have text_eq : (start.run (earlier ++ .call call :: later)).panicText =
          trap.payload.message := by
        rw [run_append, ← told]
        exact (sound.call call).panicText_run_of_calm calm
      refine ⟨trap, set, fun message text => ?_, fun other => ?_⟩
      · rw [text_eq, text]
        rfl
      · rw [text_eq, other]
        rfl
  kept _ := (sound_start.run events).panicText_call_of_ne

/-! ## Reading the text -/

/-- How a session hands out the text of its latest panic. -/
structure HandsOutPanic (session : Session) : Prop where
  /-- The number of its bytes is reported, whatever room there is. -/
  reported : ∀ capacity buffer,
    (session.readPanic capacity buffer).1 = (PanicText.bytes session.panicText).length
  /-- Nothing is written without a buffer. -/
  absent : ∀ capacity, (session.readPanic capacity none).2 = none
  /-- Nothing is written without room either. -/
  roomless : ∀ buffer, (session.readPanic 0 (some buffer)).2 = some buffer
  /-- Otherwise the text is copied. -/
  copied : ∀ capacity buffer, 0 < capacity → capacity ≤ buffer.length →
    ∃ after, (session.readPanic capacity (some buffer)).2 = some after ∧
      PanicText.CopiedInto session.panicText capacity buffer after
  /-- A caller that asks for the number of bytes first, and then makes room for one more, gets the
  whole text. -/
  recovered : ∀ buffer,
    let count := (session.readPanic 0 none).1
    count < buffer.length →
      ∃ after, (session.readPanic (count + 1) (some buffer)).2 = some after ∧
        after[count]? = some 0 ∧
        String.fromUTF8? (after.take count).toByteArray = some session.panicText

theorem handsOutPanic
    (brief : (PanicText.bytes session.panicText).length < 2 ^ 31) : session.HandsOutPanic := by
  have reported : ∀ capacity buffer,
      (session.readPanic capacity buffer).1 = (PanicText.bytes session.panicText).length :=
    fun _ _ => Nat.min_eq_left (Nat.le_of_lt_succ brief)
  refine ⟨reported, fun _ => rfl, fun _ => rfl,
    fun _ _ positive room => ⟨_, rfl, PanicText.copiedInto_copyInto positive room⟩, ?_⟩
  intro buffer count room
  have count_eq : count = (PanicText.bytes session.panicText).length := reported 0 none
  rw [count_eq] at room ⊢
  have copied : PanicText.CopiedInto session.panicText _ buffer _ :=
    PanicText.copiedInto_copyInto (Nat.succ_pos _) room
  refine ⟨_, rfl, ?_, ?_⟩
  · have zero := copied.getElem?_closing
    rw [PanicText.closing_of_lt (Nat.lt_succ_self _)] at zero
    exact zero
  · rw [copied.take_eq (Nat.lt_succ_self _), PanicText.fromUTF8?_bytes]

/-- Whatever happens to a session, the text of its latest panic is that of the call cut short last,
and is handed out in full to a caller that makes room for it. -/
theorem latest_panic_handed_out :
    (∀ events, TellsLatestPanic events) ∧
      ∀ session : Session, (PanicText.bytes session.panicText).length < 2 ^ 31 →
        session.HandsOutPanic :=
  ⟨tellsLatestPanic, fun _ => handsOutPanic⟩

/-- Giving a set up is cut short. The text is then read with too little room and with enough. -/
theorem latest_panic_of_interrupted_destroy :
    let earlier : List Event := [.call (.bitSet (.create 8 none true)), .arm ⟨0, .text "disk full"⟩]
    let call : Call := .bitSet (.destroy (.pack 1 0 1))
    let later : List Event := [.call (.intBuffer (.create true)), .arm ⟨3, .other⟩]
    let session := start.run (earlier ++ .call call :: later)
    ((start.run earlier).reply call).status = .panicked ∧
      ((start.run earlier).call call).1.Calm later ∧ session.panicText = "disk full" ∧
      (PanicText.bytes session.panicText).length < 2 ^ 31 ∧
      (∃ after, (session.readPanic 5 (some [1, 2, 3, 4, 5, 6])).2 = some after ∧
        after[3]? = some 0x6b ∧ after[4]? = some 0 ∧ after[5]? = some 6) ∧
      ∃ after, (session.readPanic 10 (some (.replicate 10 0x7f))).2 = some after ∧
        String.fromUTF8? (after.take 9).toByteArray = some "disk full" := by
  intro earlier call later session
  have panicked : ((start.run earlier).reply call).status = .panicked := by decide
  have calm : ((start.run earlier).call call).1.Calm later := ⟨by decide, trivial⟩
  obtain ⟨trap, set, text, -⟩ :=
    (latest_panic_handed_out.1 _).latest earlier call later rfl panicked calm
  obtain rfl : ⟨0, .text "disk full"⟩ = trap := Option.some_inj.mp set
  have told : session.panicText = "disk full" := text _ rfl
  have bytes_eq : PanicText.bytes session.panicText =
      [0x64, 0x69, 0x73, 0x6b, 0x20, 0x66, 0x75, 0x6c, 0x6c] := by
    rw [told]
    decide +kernel
  have brief : (PanicText.bytes session.panicText).length < 2 ^ 31 := by
    rw [bytes_eq]
    decide
  have hands_out := latest_panic_handed_out.2 session brief
  refine ⟨panicked, calm, told, brief, ?_, ?_⟩
  · obtain ⟨after, read, copied⟩ := hands_out.copied 5 [1, 2, 3, 4, 5, 6] (by decide) (by decide)
    have closing_eq : PanicText.closing session.panicText 5 = 4 := by
      rw [PanicText.closing, bytes_eq]
      rfl
    have last := copied.getElem?_of_lt 3 (by rw [closing_eq]; decide)
    have zero := copied.getElem?_closing
    have kept := copied.getElem?_of_gt 5 (by rw [closing_eq]; decide)
    rw [bytes_eq] at last
    rw [closing_eq] at zero
    exact ⟨after, read, last, zero, kept⟩
  · have counted : (session.readPanic 0 none).1 = 9 := by
      rw [hands_out.reported, bytes_eq]
      rfl
    have recovered := hands_out.recovered (.replicate 10 0x7f) (by rw [counted]; decide)
    rw [counted, told] at recovered
    obtain ⟨after, read, -, whole⟩ := recovered
    exact ⟨after, read, whole⟩

end Session

end PackedStore
