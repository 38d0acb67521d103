import TfmExtras.Vad.Partition

/-! Every recording that `get_freq` works on is a whole one, however the interrupts come. -/

namespace Vad

variable {ω : Type} {l : Libs ω} {s s' : State ω}

/-! ## What is told of a run -/

/-- The samples of the handler since a `START` took effect. -/
def hear (heard : List (Q15 × Bool)) : Event → List (Q15 × Bool)
  | .setStatus .noVoiceDetected => []
  | .sample x voice => heard ++ [(x, voice)]
  | _ => heard

def heard (trace : List Event) : List (Q15 × Bool) := trace.foldl hear []

/-- One sample was detected as voice, and the buffer holds those that came right after it. -/
def Recorded (s : State ω) : Prop :=
  ∃ (before : List (Q15 × Bool)) (voice : Q15) (samples : List Q15) (after : List (Q15 × Bool)),
    heard s.trace = before ++ (voice, true) :: (samples.map (·, false) ++ after) ∧
      (∀ x ∈ before ++ after, x.2 = false) ∧ samples.length = recordingSize ∧
      ∀ i < recordingSize, samples[i]? = some (s.sampleBuffer i)

/-- Whether there is a recording that no `GET_FREQ` has used; there must be one for its success. -/
def unused (recording : Bool) : Event → Option Bool
  | .recorded => some true
  | .reply .getFreq .success => if recording then some false else none
  | _ => some recording

def freqStatus (status : VadStatus) : PsaStatus :=
  if status = .voiceRecorded then .success else .badState

/-- The status that the `GET_FREQ` at work has seen; its reply must be the one for this status. -/
def answering (seen : Option VadStatus) : Event → Option (Option VadStatus)
  | .checked status => if seen = none then some (some status) else none
  | .reply .getFreq status => match seen with
    | none => none
    | some checked => if status = freqStatus checked then some none else none
  | _ => some seen

/-- `GET_FREQ` is between its check and its reply. -/
def Computing (s : State ω) : Prop :=
  s.msg = .getFreq ∧ s.todo ≠ [] ∧ s.todo <:+ computeFreq

structure Records (l : Libs ω) (s : State ω) : Prop where
  stores : ∀ i, Event.store i ∈ s.trace → i < recordingSize
  recorded : Stmt.rfft ∈ s.todo → Recorded s
  frozen : Computing s → ∀ words, (i2sFlih l words s).sampleBuffer = s.sampleBuffer
  once : s.trace.foldlM unused false ≠ none
  answers : s.trace.foldlM answering none ≠ none

/-! ## The handler -/

/-- What holds of the recording while `GET_FREQ` is not at work on it. -/
def Tape (s : State ω) (recording : Bool) : Prop :=
  match s.vadStatus with
  | .stopped => True
  | .noVoiceDetected => ∀ x ∈ heard s.trace, x.2 = false
  | .recording => ∃ (before : List (Q15 × Bool)) (voice : Q15) (samples : List Q15),
      heard s.trace = before ++ (voice, true) :: samples.map (·, false) ∧
        (∀ x ∈ before, x.2 = false) ∧ samples.length = s.sampleBufferEndIdx ∧
        s.sampleBufferEndIdx < recordingSize ∧
        ∀ i < s.sampleBufferEndIdx, samples[i]? = some (s.sampleBuffer i)
  | .voiceRecorded => Recorded s ∧ recording = true

structure Held (s : State ω) (recording : Bool) : Prop where
  stores : ∀ i, Event.store i ∈ s.trace → i < recordingSize
  once : s.trace.foldlM unused false = some recording
  tape : Tape s recording

theorem heard_append (trace : List Event) (e : Event) :
    heard (trace ++ [e]) = hear (heard trace) e := List.foldl_concat ..

theorem foldlM_snoc {σ : Type} {f : σ → Event → Option σ} {a b : σ} {trace : List Event}
    (h : trace.foldlM f a = some b) (e : Event) : (trace ++ [e]).foldlM f a = f b e := by
  rw [List.foldlM_append, h]
  simp

/-- A sample outside of a recording. -/
theorem Tape.sample_skip {b : Bool} (h : Tape s b) {x : Q15}
    (htrace : s'.trace = s.trace ++ [.sample x false]) (hstatus : s'.vadStatus = s.vadStatus) (hne : s.vadStatus ≠ .recording)
    (hbuf : s'.sampleBuffer = s.sampleBuffer) : Tape s' b := by
  have hh : heard s'.trace = heard s.trace ++ [(x, false)] := by
    rw [htrace, heard_append]
    rfl
  unfold Tape at h ⊢
  rw [hstatus]
  cases hs : s.vadStatus with
  | stopped => trivial
  | noVoiceDetected =>
    rw [hs] at h
    rw [hh]
    intro y hy
    rcases List.mem_append.mp hy with hy | hy
    · exact h y hy
    · cases List.mem_singleton.mp hy
      rfl
  | recording => exact absurd hs hne
  | voiceRecorded =>
    rw [hs] at h
    obtain ⟨⟨before, voice, samples, after, hheard, hno, hlen, hget⟩, hb⟩ := h
    refine ⟨⟨before, voice, samples, after ++ [(x, false)], ?_, ?_, hlen, hbuf ▸ hget⟩, hb⟩
    · rw [hh, hheard]
      simp
    · intro y hy
      rcases List.mem_append.mp hy with hy | hy
      · exact hno y (List.mem_append_left _ hy)
      · rcases List.mem_append.mp hy with hy | hy
        · exact hno y (List.mem_append_right _ hy)
        · cases List.mem_singleton.mp hy
          rfl

/-- The sample that is detected as voice. -/
theorem Tape.sample_voice {b b' : Bool} (h : Tape s b) {x : Q15} (hs : s.vadStatus = .noVoiceDetected)
    (htrace : s'.trace = s.trace ++ [.sample x true]) (hstatus : s'.vadStatus = .recording)
    (hidx : s'.sampleBufferEndIdx = 0) : Tape s' b' := by
  unfold Tape at h ⊢
  rw [hs] at h
  rw [hstatus]
  refine ⟨heard s.trace, x, [], ?_, h, hidx.symm, hidx ▸ (by decide), fun i hi => ?_⟩
  · rw [htrace, heard_append]
    rfl
  · rw [hidx] at hi
    exact absurd hi (Nat.not_lt_zero i)

/-- A sample of a recording; the last one ends it. -/
theorem Tape.sample_store {b : Bool} (h : Tape s b) (x : Q15) (hs : s.vadStatus = .recording) :
    s.sampleBufferEndIdx < recordingSize ∧
      ∃ (before : List (Q15 × Bool)) (voice : Q15) (samples : List Q15), heard (s.trace ++ [.sample x false]) =
        before ++ (voice, true) :: samples.map (·, false) ∧ (∀ y ∈ before, y.2 = false) ∧
        samples.length = s.sampleBufferEndIdx + 1 ∧ ∀ i < s.sampleBufferEndIdx + 1,
          samples[i]? = some (Function.update s.sampleBuffer s.sampleBufferEndIdx x i) := by
  unfold Tape at h
  rw [hs] at h
  obtain ⟨before, voice, samples, hheard, hno, hlen, hidx, hget⟩ := h
  refine ⟨hidx, before, voice, samples ++ [x], ?_, hno, ?_, fun i hi => ?_⟩
  · rw [heard_append, hheard]
    simp [hear]
  · rw [List.length_append, hlen]
    rfl
  · rcases Nat.lt_succ_iff_lt_or_eq.mp hi with hi | rfl
    · rw [List.getElem?_append_left (hlen.symm ▸ hi), hget i hi, Function.update_of_ne hi.ne]
    · rw [← hlen, Function.update_self]
      simp

theorem i2sFlihRound_held {b : Bool} (h : Held s b) (va : Int) (word : BitVec 32) :
    ∃ b', Held (i2sFlihRound l va word s).2 b' := by
  obtain ⟨hstores, honce, htape⟩ := h
  have hsample : ∀ x voice, (s.trace ++ [Event.sample x voice]).foldlM unused false = some b :=
    fun x voice => foldlM_snoc honce _
  have hkeep : ∀ x voice i, Event.store i ∈ s.trace ++ [Event.sample x voice] → i < recordingSize :=
    fun x voice i hi => by
      rcases List.mem_append.mp hi with hi | hi
      · exact hstores i hi
      · cases List.mem_singleton.mp hi
  unfold i2sFlihRound
  dsimp only
  split
  next hs =>
    split_ifs
    · exact ⟨b, ⟨hkeep _ _, hsample _ _, htape.sample_voice hs rfl rfl rfl⟩⟩
    · refine ⟨b, ⟨hkeep _ _, hsample _ _, htape.sample_skip rfl rfl ?_ rfl⟩⟩
      exact hs ▸ nofun
  next hs =>
    obtain ⟨hidx, before, voice, samples, hheard, hno, hlen, hget⟩ := htape.sample_store _ hs
    have hmod : (s.sampleBufferEndIdx + 1) % 2 ^ 32 = s.sampleBufferEndIdx + 1 :=
      Nat.mod_eq_of_lt (lt_of_le_of_lt hidx (by decide))
    have htrace : s.trace ++ [.sample (word.setWidth 16) false, .store s.sampleBufferEndIdx] =
        s.trace ++ [.sample (word.setWidth 16) false] ++ [.store s.sampleBufferEndIdx] :=
      (List.append_assoc s.trace [_] [_]).symm
    have honce' := foldlM_snoc (hsample (word.setWidth 16) false) (.store s.sampleBufferEndIdx)
    have hstores' : ∀ i, Event.store i ∈ s.trace ++ [.sample (word.setWidth 16) false] ++
        [.store s.sampleBufferEndIdx] → i < recordingSize := fun i hi => by
      rcases List.mem_append.mp hi with hi | hi
      · exact hkeep _ _ i hi
      · cases List.mem_singleton.mp hi
        exact hidx
    have hheard' : heard (s.trace ++ [.sample (word.setWidth 16) false] ++
        [.store s.sampleBufferEndIdx]) = _ := (heard_append _ _).trans hheard
    rw [hmod, htrace]
    split_ifs with hfull
    · -- the buffer is full
      refine ⟨true, ⟨fun i hi => ?_, foldlM_snoc honce' _, ?_, rfl⟩⟩
      · rcases List.mem_append.mp hi with hi | hi
        · exact hstores' i hi
        · cases List.mem_singleton.mp hi
      · refine ⟨before, voice, samples, [], ?_, ?_, hlen.trans hfull, hfull ▸ hget⟩
        · rw [List.append_nil]
          exact (heard_append _ _).trans hheard'
        · rw [List.append_nil]
          exact hno
    · refine ⟨b, hstores', honce', ?_⟩
      unfold Tape
      rw [hs]
      exact ⟨before, voice, samples, hheard', hno, hlen, lt_of_le_of_ne hidx hfull, hget⟩
  next hno hrec =>
    exact ⟨b, ⟨hkeep _ _, hsample _ _, htape.sample_skip rfl rfl hrec rfl⟩⟩

/-- What the handler leaves alone: the thread, and a recording that is whole. -/
structure Spares (s s' : State ω) : Prop where
  msg : s'.msg = s.msg
  todo : s'.todo = s.todo
  answers : s'.trace.foldlM answering none = s.trace.foldlM answering none
  frozen : s.vadStatus = .stopped ∨ s.vadStatus = .voiceRecorded →
    s'.vadStatus = s.vadStatus ∧ s'.sampleBuffer = s.sampleBuffer ∧
      s'.trace.foldlM unused false = s.trace.foldlM unused false ∧
      ∀ i, Event.store i ∈ s'.trace → Event.store i ∈ s.trace

theorem Spares.refl (s : State ω) : Spares s s :=
  ⟨rfl, rfl, rfl, fun _ => ⟨rfl, rfl, rfl, fun _ h => h⟩⟩

theorem Spares.trans {s'' : State ω} (h : Spares s s') (h' : Spares s' s'') : Spares s s'' where
  msg := h'.msg.trans h.msg
  todo := h'.todo.trans h.todo
  answers := h'.answers.trans h.answers
  frozen hs := by
    obtain ⟨hstatus, hbuf, honce, hstore⟩ := h.frozen hs
    obtain ⟨hstatus', hbuf', honce', hstore'⟩ := h'.frozen (hstatus ▸ hs)
    exact ⟨hstatus'.trans hstatus, hbuf'.trans hbuf, honce'.trans honce,
      fun i hi => hstore i (hstore' i hi)⟩

theorem foldlM_quiet {σ : Type} {f : σ → Event → Option σ} {a : σ} {e : Event}
    (he : ∀ b, f b e = some b) (trace : List Event) :
    (trace ++ [e]).foldlM f a = trace.foldlM f a := by
  rw [List.foldlM_append]
  cases trace.foldlM f a with
  | none => rfl
  | some b => simp [he b]

theorem i2sFlihRound_spares (va : Int) (word : BitVec 32) (s : State ω) :
    Spares s (i2sFlihRound l va word s).2 := by
  have hsample : ∀ x voice, (s.trace ++ [Event.sample x voice]).foldlM answering none =
      s.trace.foldlM answering none := fun x voice => foldlM_quiet (fun _ => rfl) _
  unfold i2sFlihRound
  dsimp only
  split
  next hs =>
    have hne : s.vadStatus = .stopped ∨ s.vadStatus = .voiceRecorded → False :=
      hs ▸ fun h => h.elim nofun nofun
    split_ifs
    · exact ⟨rfl, rfl, hsample _ _, fun h => (hne h).elim⟩
    · exact ⟨rfl, rfl, hsample _ _, fun h => (hne h).elim⟩
  next hs =>
    have hne : s.vadStatus = .stopped ∨ s.vadStatus = .voiceRecorded → False :=
      hs ▸ fun h => h.elim nofun nofun
    have hstore : (s.trace ++ [Event.sample (word.setWidth 16) false,
        Event.store s.sampleBufferEndIdx]).foldlM answering none = s.trace.foldlM answering none := by
      rw [show [Event.sample (word.setWidth 16) false, .store s.sampleBufferEndIdx] =
        [.sample (word.setWidth 16) false] ++ [.store s.sampleBufferEndIdx] from rfl,
        ← List.append_assoc]
      exact (foldlM_quiet (fun _ => rfl) _).trans (hsample _ _)
    split_ifs
    · exact ⟨rfl, rfl, (foldlM_quiet (fun _ => rfl) _).trans hstore, fun h => (hne h).elim⟩
    · exact ⟨rfl, rfl, hstore, fun h => (hne h).elim⟩
  next =>
    refine ⟨rfl, rfl, hsample _ _, fun _ => ⟨rfl, rfl, foldlM_quiet (fun _ => rfl) _, ?_⟩⟩
    intro i hi
    rcases List.mem_append.mp hi with hi | hi
    · exact hi
    · cases List.mem_singleton.mp hi

theorem i2sFlih_spares (words : List (BitVec 32)) (s : State ω) : Spares s (i2sFlih l words s) := by
  suffices h : ∀ va s, Spares s (i2sFlihLoop l words va s) from h 0 s
  induction words with
  | nil => exact fun _ s => .refl s
  | cons word words ih =>
    intro va s
    exact (i2sFlihRound_spares va word s).trans (ih _ _)

theorem i2sFlih_held {b : Bool} (h : Held s b) (words : List (BitVec 32)) :
    ∃ b', Held (i2sFlih l words s) b' := by
  suffices hall : ∀ va s b, Held s b → ∃ b', Held (i2sFlihLoop l words va s) b' from hall 0 s b h
  induction words with
  | nil => exact fun _ _ b h => ⟨b, h⟩
  | cons word words ih =>
    intro va s b h
    obtain ⟨b', h'⟩ := i2sFlihRound_held (l := l) h va word
    exact ih _ _ b' h'

/-! ## The thread -/

/-- The state between two steps, by what the thread is at. -/
inductive Inv (s : State ω) : Prop
  | serving {b : Bool} (hs : s.todo <:+ vadSignalHandle s.msg) (held : Held s b)
      (answers : s.trace.foldlM answering none = some none)
  | refusing {b : Bool} {seen : VadStatus} (msg : s.msg = .getFreq)
      (todo : s.todo = [.reply .badState]) (held : Held s b) (hne : seen ≠ .voiceRecorded)
      (answers : s.trace.foldlM answering none = some (some seen))
  | before {k : Nat} (hk : k ≤ 1) (msg : s.msg = .getFreq) (todo : s.todo = computeFreq.drop k)
      (held : Held s true) (status : s.vadStatus = .voiceRecorded)
      (answers : s.trace.foldlM answering none = some (some .voiceRecorded))
  | after {k : Nat} (hk : 2 ≤ k ∧ k ≤ 6) (msg : s.msg = .getFreq)
      (todo : s.todo = computeFreq.drop k) (stores : ∀ i, Event.store i ∈ s.trace → i < recordingSize)
      (once : s.trace.foldlM unused false = some true) (status : s.vadStatus = .voiceRecorded)
      (answers : s.trace.foldlM answering none = some (some .voiceRecorded))
  | stopped (msg : s.msg = .getFreq) (todo : s.todo = [.reply .success]) (held : Held s true)
      (status : s.vadStatus = .stopped)
      (answers : s.trace.foldlM answering none = some (some .voiceRecorded))

/-- Interrupts keep the invariant. -/
theorem Inv.interrupt (h : Inv s) (words : List (BitVec 32)) : Inv (i2sFlih l words s) := by
  have hsp := i2sFlih_spares (l := l) words s
  cases h with
  | serving hs held answers =>
    obtain ⟨b', held'⟩ := i2sFlih_held (l := l) held words
    exact .serving (by rw [hsp.todo, hsp.msg]; exact hs) held' (hsp.answers.trans answers)
  | refusing msg todo held hne answers =>
    obtain ⟨b', held'⟩ := i2sFlih_held (l := l) held words
    exact .refusing (hsp.msg.trans msg) (hsp.todo.trans todo) held' hne (hsp.answers.trans answers)
  | before hk msg todo held status answers =>
    obtain ⟨b', held'⟩ := i2sFlih_held (l := l) held words
    obtain ⟨hstatus, -, honce, -⟩ := hsp.frozen (.inr status)
    obtain rfl : b' = true :=
      Option.some_inj.mp ((held'.once.symm.trans honce).trans held.once)
    exact .before hk (hsp.msg.trans msg) (hsp.todo.trans todo) held' (hstatus.trans status)
      (hsp.answers.trans answers)
  | after hk msg todo stores once status answers =>
    obtain ⟨hstatus, -, honce, hstore⟩ := hsp.frozen (.inr status)
    exact .after hk (hsp.msg.trans msg) (hsp.todo.trans todo) (fun i hi => stores i (hstore i hi))
      (honce.trans once) (hstatus.trans status) (hsp.answers.trans answers)
  | stopped msg todo held status answers =>
    obtain ⟨b', held'⟩ := i2sFlih_held (l := l) held words
    obtain ⟨hstatus, -, honce, -⟩ := hsp.frozen (.inl status)
    obtain rfl : b' = true :=
      Option.some_inj.mp ((held'.once.symm.trans honce).trans held.once)
    exact .stopped (hsp.msg.trans msg) (hsp.todo.trans todo) held' (hstatus.trans status)
      (hsp.answers.trans answers)

/-- An event that says nothing about the recording. -/
theorem Held.emit {b : Bool} (h : Held s b) {e : Event} (hu : unused b e = some b)
    (hh : ∀ xs, hear xs e = xs) (hs : ∀ i, e ≠ .store i) : Held (s.emit e) b where
  stores i hi := by
    rcases List.mem_append.mp hi with hi | hi
    · exact h.stores i hi
    · exact absurd (List.mem_singleton.mp hi).symm (hs i)
  once := (foldlM_snoc h.once e).trans hu
  tape := by
    have heq : heard (s.emit e).trace = heard s.trace := (heard_append _ _).trans (hh _)
    have ht := h.tape
    unfold Tape Recorded at ht ⊢
    rw [heq]
    exact ht

/-- What the thread does next is no part of the recording. -/
theorem Held.withTodo {b : Bool} (h : Held s b) (todo : List Stmt) :
    Held { s with todo := todo } b := ⟨h.stores, h.once, h.tape⟩

theorem vadSignalHandle_stmts {r : Request} (hr : r ≠ .getFreq) : ∀ c ∈ vadSignalHandle r,
    c ≠ .checkRecorded ∧ c ≠ .rfft ∧ c ≠ .setStatus .recording ∧ c ≠ .setStatus .voiceRecorded := by
  cases r <;> first | exact absurd rfl hr | decide

/-- The statements for the messages other than `GET_FREQ`. -/
theorem exec_held {b : Bool} {c : Stmt} (h : Held s b) (hmsg : s.msg ≠ .getFreq)
    (hc : c ∈ vadSignalHandle s.msg) :
    Held (exec l c s) b ∧ (exec l c s).msg = s.msg ∧ (exec l c s).todo = s.todo ∧
      (exec l c s).trace.foldlM answering none = s.trace.foldlM answering none := by
  obtain ⟨hcheck, hrfft, hrec, hrecorded⟩ := vadSignalHandle_stmts hmsg c hc
  have hwrite : ∀ n, Held (s.emit (.write n)) b := fun n => h.emit rfl (fun _ => rfl) nofun
  have hquiet : ∀ n, (s.emit (.write n)).trace.foldlM answering none =
      s.trace.foldlM answering none := fun n => foldlM_quiet (fun _ => rfl) _
  cases c with
  | checkRecorded => exact absurd rfl hcheck
  | rfft => exact absurd rfl hrfft
  | setStatus status =>
    have hset : (s.emit (.setStatus status)).trace.foldlM unused false = some b :=
      foldlM_snoc h.once _
    have hstores : ∀ i, Event.store i ∈ (s.emit (.setStatus status)).trace → i < recordingSize :=
      fun i hi => by
        rcases List.mem_append.mp hi with hi | hi
        · exact h.stores i hi
        · cases List.mem_singleton.mp hi
    refine ⟨⟨hstores, hset, ?_⟩, rfl, rfl, foldlM_quiet (fun _ => rfl) _⟩
    cases status with
    | stopped => trivial
    | noVoiceDetected =>
      show ∀ x ∈ heard (s.trace ++ [.setStatus .noVoiceDetected]), x.2 = false
      rw [heard_append]
      exact fun x hx => absurd hx List.not_mem_nil
    | recording => exact absurd rfl hrec
    | voiceRecorded => exact absurd rfl hrecorded
  | writeStatus => exact ⟨hwrite _, rfl, rfl, hquiet _⟩
  | writeFreq => exact ⟨hwrite _, rfl, rfl, hquiet _⟩
  | reply status =>
    have hr : ∀ r : Request, r ≠ .getFreq → (∀ b, unused b (.reply r status) = some b) ∧
        ∀ seen, answering seen (.reply r status) = some seen := fun r hr => by
      cases r <;> first | exact absurd rfl hr | exact ⟨fun _ => rfl, fun _ => rfl⟩
    exact ⟨h.emit ((hr _ hmsg).1 b) (fun _ => rfl) nofun, rfl, rfl, foldlM_quiet (hr _ hmsg).2 _⟩
  | _ => exact ⟨⟨h.stores, h.once, h.tape⟩, rfl, rfl, rfl⟩

/-- The check of `GET_FREQ`. -/
theorem Inv.check {b : Bool} (held : Held s b) (hmsg : s.msg = .getFreq)
    (answers : s.trace.foldlM answering none = some none) : Inv (exec l .checkRecorded s) := by
  have hans : (s.trace ++ [Event.checked s.vadStatus]).foldlM answering none =
      some (some s.vadStatus) := foldlM_snoc answers _
  unfold exec
  dsimp only
  by_cases hs : s.vadStatus = .voiceRecorded
  · have htape := held.tape
    unfold Tape at htape
    rw [hs] at htape hans
    obtain ⟨-, rfl⟩ := htape
    rw [if_pos hs]
    exact .before (Nat.zero_le 1) hmsg rfl
      ((held.withTodo computeFreq).emit rfl (fun _ => rfl) nofun) hs (hs.symm ▸ hans)
  · rw [if_neg hs]
    exact .refusing hmsg rfl ((held.withTodo _).emit rfl (fun _ => rfl) nofun) hs hans

theorem Inv.reply {b : Bool} {seen : VadStatus} (hmsg : s.msg = .getFreq)
    (answers : s.trace.foldlM answering none = some (some seen))
    (held : Held ({ s with todo := [] }.emit (.reply .getFreq (freqStatus seen))) b) :
    Inv (exec l (.reply (freqStatus seen)) { s with todo := [] }) := by
  have hans : (s.trace ++ [Event.reply .getFreq (freqStatus seen)]).foldlM answering none =
      some none := (foldlM_snoc answers _).trans (if_pos rfl)
  have hreply : exec l (.reply (freqStatus seen)) { s with todo := [] } =
      { s with todo := [] }.emit (.reply .getFreq (freqStatus seen)) :=
    congrArg (fun r => State.emit { s with todo := [] } (.reply r (freqStatus seen))) hmsg
  rw [hreply]
  exact .serving List.nil_suffix held hans

/-- Nothing of the recording matters once the partition is stopped. -/
theorem Held.stopped {b : Bool} (stores : ∀ i, Event.store i ∈ s.trace → i < recordingSize)
    (once : s.trace.foldlM unused false = some b) (hs : s.vadStatus = .stopped) : Held s b := by
  refine ⟨stores, once, ?_⟩
  unfold Tape
  rw [hs]
  trivial

theorem stores_emit (stores : ∀ i, Event.store i ∈ s.trace → i < recordingSize) {e : Event}
    (he : ∀ i, e ≠ .store i) : ∀ i, Event.store i ∈ (s.emit e).trace → i < recordingSize := by
  intro i hi
  rcases List.mem_append.mp hi with hi | hi
  · exact stores i hi
  · exact absurd (List.mem_singleton.mp hi).symm (he i)

/-- A statement of the thread keeps the invariant. -/
theorem Inv.thread (h : Inv s) : Inv (s.step l .thread) := by
  unfold State.step
  dsimp only
  cases ht : s.todo with
  | nil => exact h
  | cons c todo =>
    dsimp only
    cases h with
    | serving hs held answers =>
      rw [ht] at hs
      by_cases hmsg : s.msg = .getFreq
      · rw [hmsg] at hs
        obtain ⟨rfl, rfl⟩ : c = .checkRecorded ∧ todo = [] := by
          rcases List.suffix_cons_iff.mp hs with h | h
          · exact List.cons.inj h
          · exact absurd (List.suffix_nil.mp h) nofun
        exact .check (held.withTodo []) hmsg answers
      · have hc : c ∈ vadSignalHandle s.msg := hs.subset List.mem_cons_self
        obtain ⟨held', hmsg', htodo', hanswers'⟩ := exec_held (l := l) (held.withTodo todo) hmsg hc
        refine .serving ?_ held' (hanswers'.trans answers)
        rw [htodo', hmsg']
        exact (List.suffix_cons c todo).trans hs
    | refusing msg todo' held hne answers =>
      obtain ⟨rfl, rfl⟩ := List.cons.inj (ht.symm.trans todo')
      have hbad : freqStatus _ = .badState := if_neg hne
      rw [← hbad]
      refine .reply msg answers ((held.withTodo []).emit ?_ (fun _ => rfl) nofun)
      rw [hbad]
      rfl
    | @before k hk msg todo' held status answers =>
      obtain rfl | rfl : k = 0 ∨ k = 1 := by omega
      · obtain ⟨rfl, rfl⟩ := List.cons.inj (ht.symm.trans todo')
        exact .before (Nat.le_refl 1) msg rfl ⟨held.1, held.2, held.3⟩ status answers
      · obtain ⟨rfl, rfl⟩ := List.cons.inj (ht.symm.trans todo')
        exact .after ⟨Nat.le_refl 2, by decide⟩ msg rfl held.stores held.once status answers
    | @after k hk msg todo' stores once status answers =>
      obtain rfl | rfl | rfl | rfl | rfl : k = 2 ∨ k = 3 ∨ k = 4 ∨ k = 5 ∨ k = 6 := by omega
      all_goals obtain ⟨rfl, rfl⟩ := List.cons.inj (ht.symm.trans todo')
      · exact .after (k := 3) (by decide) msg rfl stores once status answers
      · exact .after (k := 4) (by decide) msg rfl stores once status answers
      · exact .after (k := 5) (by decide) msg rfl stores once status answers
      · exact .after (k := 6) (by decide) msg rfl (stores_emit stores nofun)
          ((foldlM_snoc once _).trans rfl) status ((foldlM_snoc answers _).trans rfl)
      · exact .stopped msg rfl
          (.stopped (stores_emit stores nofun) ((foldlM_snoc once _).trans rfl) rfl) rfl
          ((foldlM_snoc answers _).trans rfl)
    | stopped msg todo' held status answers =>
      obtain ⟨rfl, rfl⟩ := List.cons.inj (ht.symm.trans todo')
      exact @Inv.reply ω l s _ .voiceRecorded msg answers
        (.stopped (stores_emit held.stores nofun) ((foldlM_snoc held.once _).trans rfl) status)

theorem Inv.message (h : Inv s) (r : Request) : Inv (s.step l (.message r)) := by
  unfold State.step
  dsimp only
  cases ht : s.todo with
  | cons c todo => exact h
  | nil =>
    dsimp only
    cases h with
    | serving hs held answers => exact .serving List.suffix_rfl ⟨held.1, held.2, held.3⟩ answers
    | refusing msg todo held hne answers => exact absurd (ht.symm.trans todo) nofun
    | @before k hk msg todo held status answers =>
      obtain rfl | rfl : k = 0 ∨ k = 1 := by omega
      all_goals exact absurd (ht.symm.trans todo) nofun
    | @after k hk msg todo stores once status answers =>
      obtain rfl | rfl | rfl | rfl | rfl : k = 2 ∨ k = 3 ∨ k = 4 ∨ k = 5 ∨ k = 6 := by omega
      all_goals exact absurd (ht.symm.trans todo) nofun
    | stopped msg todo held status answers => exact absurd (ht.symm.trans todo) nofun

theorem inv_run (l : Libs ω) (vad : ω) (steps : List Step) : Inv (run l vad steps) := by
  have hinit : Inv (State.init vad) :=
    .serving List.nil_suffix (.stopped (fun i hi => absurd hi List.not_mem_nil) rfl rfl) rfl
  unfold run
  induction steps using List.reverseRecOn with
  | nil => exact hinit
  | append_singleton steps step ih =>
    rw [List.foldl_append]
    cases step with
    | message r => exact Inv.message (l := l) ih r
    | thread => exact ih.thread
    | interrupt words => exact ih.interrupt words

theorem rfft_not_mem (r : Request) : Stmt.rfft ∉ vadSignalHandle r := by
  cases r <;> decide

theorem not_computing_serving (hs : s.todo <:+ vadSignalHandle s.msg) : ¬ Computing s := by
  rintro ⟨hmsg, hne, hc⟩
  rw [hmsg] at hs
  rcases List.suffix_cons_iff.mp hs with h | h
  · exact absurd (h ▸ hc) (by decide)
  · exact hne (List.suffix_nil.mp h)

/-- A whole recording, or a stopped partition. -/
theorem frozen_of_status (hs : s.vadStatus = .stopped ∨ s.vadStatus = .voiceRecorded)
    (words : List (BitVec 32)) : (i2sFlih l words s).sampleBuffer = s.sampleBuffer :=
  ((i2sFlih_spares words s).frozen hs).2.1

theorem Inv.records (h : Inv s) : Records l s := by
  cases h with
  | serving hs held answers =>
    refine ⟨held.stores, fun hr => absurd (hs.subset hr) (rfft_not_mem _),
      fun hc => absurd hc (not_computing_serving hs), ?_, ?_⟩
    · rw [held.once]
      nofun
    · rw [answers]
      nofun
  | refusing msg todo held hne answers =>
    refine ⟨held.stores, fun hr => absurd (todo ▸ hr) (by decide),
      fun hc => absurd (todo ▸ hc.2.2) (by decide), ?_, ?_⟩
    · rw [held.once]
      nofun
    · rw [answers]
      nofun
  | before hk msg todo held status answers =>
    have htape := held.tape
    unfold Tape at htape
    rw [status] at htape
    refine ⟨held.stores, fun _ => htape.1, fun _ => frozen_of_status (.inr status), ?_, ?_⟩
    · rw [held.once]
      nofun
    · rw [answers]
      nofun
  | @after k hk msg todo stores once status answers =>
    have hrfft : Stmt.rfft ∉ s.todo := by
      rw [todo]
      obtain rfl | rfl | rfl | rfl | rfl : k = 2 ∨ k = 3 ∨ k = 4 ∨ k = 5 ∨ k = 6 := by omega
      all_goals decide
    refine ⟨stores, fun hr => absurd hr hrfft, fun _ => frozen_of_status (.inr status), ?_, ?_⟩
    · rw [once]
      nofun
    · rw [answers]
      nofun
  | stopped msg todo held status answers =>
    refine ⟨held.stores, fun hr => absurd (todo ▸ hr) (by decide),
      fun _ => frozen_of_status (.inl status), ?_, ?_⟩
    · rw [held.once]
      nofun
    · rw [answers]
      nofun

/-- However messages, statements and interrupts come, whatever the voice detection answers: the
stores stay in the buffer, `GET_FREQ` computes on a whole recording that stays as it is up to the
reply, and uses each recording once. -/
theorem run_records (l : Libs ω) (vad : ω) (steps : List Step) : Records l (run l vad steps) :=
  (inv_run l vad steps).records

end Vad
