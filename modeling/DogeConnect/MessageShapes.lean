/-
`taskDistributionLoop` and messages of any shape.

The thread has no handler: an exception out of an iteration ends the process.
An iteration is written here as one computation that can fail, over the message
it pops and those its inner loop drains, with every access of
`checkShareResponse` and `distributeTask`.

    readMessage_ok_iff      the dispatch on `id` and `method`
    distributeTask_ok_iff   the accesses of `distributeTask`
    iteration_ok_iff        an iteration completes just when its messages have
                            the shapes these ask for
    iteration_exec          an iteration is a run of the loop of `DistLoop`

What is asked for concerns `set_difficulty` and `notify` only; any other value
is ignored, and a response is always counted or reported.
-/
import DogeConnect.DistLoop

namespace DogeConnect

/-! ## Shapes -/

/-- The value under a key of an object. -/
def Json.entry : Json → Str → Option Json
  | .object fields, key => find? fields key
  | _, _ => none

/-- What converts to `uint64_t`: an integer, or a float whose integral part fits. -/
def Json.isUInt64 : Json → Bool
  | .unsigned _ | .integer _ => true
  | .float q => decide (0 ≤ q.num.tdiv q.den ∧ q.num.tdiv q.den < 2 ^ 64)
  | _ => false

theorem field_of_entry {v w : Json} {key : Str} (h : v.entry key = some w) :
    v.field key = .ok w := by
  cases v with
  | object fields => exact congrArg (fun o => Except.ok (o.getD .null)) h
  | _ => cases h

def Json.isString : Json → Bool
  | .string _ => true
  | _ => false

theorem getUInt64_ok_iff (v : Json) : (∃ n, v.getUInt64 = .ok n) ↔ v.isUInt64 = true := by
  cases v with
  | float q =>
      rw [Json.getUInt64, Json.truncToUnsigned, Json.isUInt64, decide_eq_true_iff]
      constructor
      · rintro ⟨n, hn⟩
        by_contra hrange
        rw [if_neg hrange] at hn
        cases hn
      · intro hrange
        rw [if_pos hrange]
        exact ⟨_, rfl⟩
  | unsigned n => exact ⟨fun _ => rfl, fun _ => ⟨_, rfl⟩⟩
  | integer i => exact ⟨fun _ => rfl, fun _ => ⟨_, rfl⟩⟩
  | _ => simp [Json.getUInt64, Json.isUInt64]

/-- The first parameter is a number. -/
def HasDivisor (msg : Json) : Prop :=
  ∃ elements v, msg.entry "params".toList = some (.array elements) ∧
    elements[0]? = some v ∧ v.isUInt64 = true

/-- The parameters are an array with a flag in its place. -/
def HasFlag (msg : Json) (clean : Bool) : Prop :=
  ∃ elements, msg.entry "params".toList = some (.array elements) ∧
    elements[8]? = some (.boolean clean)

/-- A notification of a method. -/
def Notifies (msg : Json) (method : Str) : Prop :=
  msg.entry "id".toList = some .null ∧ msg.entry "method".toList = some (.string method)

/-- What the dispatch asks of a message. -/
structure Readable (msg : Json) : Prop where
  divisor : Notifies msg "mining.set_difficulty".toList → HasDivisor msg
  flag : Notifies msg "mining.notify".toList → ∃ clean, HasFlag msg clean

/-! ## The dispatch -/

/-- An element is read and converted: the value was an array that long, if the
conversion does not take `null`. -/
theorem index_bind_ok_iff {α : Type} {f : Json → Except JsonError α}
    (hnull : ∀ a, f .null ≠ .ok a) (v : Json) (i : Nat) (a : α) :
    (v.index i).bind f = .ok a ↔
      ∃ elements w, v = .array elements ∧ elements[i]? = some w ∧ f w = .ok a := by
  constructor
  · intro h
    obtain ⟨w, hw, ha⟩ := except_bind_eq_ok.mp h
    cases v with
    | array elements =>
        rw [Json.index, List.getD_eq_getElem?_getD] at hw
        cases hget : elements[i]? with
        | none =>
            rw [hget] at hw
            cases hw
            exact absurd ha (hnull a)
        | some x =>
            rw [hget] at hw
            cases hw
            exact ⟨elements, x, rfl, hget, ha⟩
    | null =>
        cases hw
        exact absurd ha (hnull a)
    | _ => cases hw
  · rintro ⟨elements, w, rfl, hget, ha⟩
    rw [Json.index, List.getD_eq_getElem?_getD, hget]
    exact ha

theorem readMessage_null {fields : List (Str × Json)}
    (hid : Json.find? fields "id".toList = some .null) :
    readMessage (.object fields) =
      if ((Json.find? fields "method".toList).getD .null).eqString "mining.set_difficulty".toList then
        ((((Json.find? fields "params".toList).getD .null).index 0).bind Json.getUInt64).map
          StratumMessage.setDifficulty
      else if ((Json.find? fields "method".toList).getD .null).eqString "mining.notify".toList then
        ((((Json.find? fields "params".toList).getD .null).index 8).bind Json.getBool).map
          StratumMessage.notify
      else .ok .ignored := by
  have hcontains : (!(Json.object fields).contains "id".toList) = false := by
    rw [Json.contains, hid]
    rfl
  have hfield : (Json.object fields).field "id".toList = .ok .null := by
    rw [Json.field, hid]
    rfl
  simp only [readMessage, hcontains, hfield, bind, pure, Except.pure]
  show (if ((Json.find? fields "method".toList).getD .null).eqString "mining.set_difficulty".toList
    then _ else _) = _
  split
  · show (((Json.find? fields "params".toList).getD .null).index 0).bind _ = _
    cases ((Json.find? fields "params".toList).getD .null).index 0 with
    | error e => rfl
    | ok v => cases v.getUInt64 <;> rfl
  · show (if ((Json.find? fields "method".toList).getD .null).eqString "mining.notify".toList
      then _ else _) = _
    split
    · show (((Json.find? fields "params".toList).getD .null).index 8).bind _ = _
      cases ((Json.find? fields "params".toList).getD .null).index 8 with
      | error e => rfl
      | ok v => cases v.getBool <;> rfl
    · rfl

theorem except_map_eq_ok {ε α β : Type} {x : Except ε α} {f : α → β} {b : β} :
    x.map f = .ok b ↔ ∃ a, x = .ok a ∧ f a = b := by
  cases x with
  | error e => simp [Except.map]
  | ok a => simp [Except.map]

theorem eqString_iff (v : Json) (s : Str) : v.eqString s = true ↔ v = .string s := by
  cases v with
  | string t => simp [Json.eqString]
  | _ => simp [Json.eqString]

theorem getD_eq_string {o : Option Json} {s : Str} : o.getD .null = .string s ↔ o = some (.string s) := by
  cases o <;> simp

theorem getD_eq_array {o : Option Json} {elements : List Json} :
    o.getD .null = .array elements ↔ o = some (.array elements) := by
  cases o <;> simp

/-- A message that is not a notification is read without an access that fails. -/
theorem readMessage_other {msg : Json} (h : msg.entry "id".toList ≠ some .null) :
    readMessage msg = .ok .ignored ∨ readMessage msg = .ok .shareResponse := by
  cases msg with
  | object fields =>
      cases hid : Json.find? fields "id".toList with
      | none =>
          left
          simp only [readMessage, Json.contains, hid, bind, pure, Except.pure]
          rfl
      | some id =>
          have hcontains : (!(Json.object fields).contains "id".toList) = false := by
            rw [Json.contains, hid]
            rfl
          have hfield : (Json.object fields).field "id".toList = .ok id := by
            rw [Json.field, hid]
            rfl
          cases id with
          | null => exact absurd hid h
          | unsigned n =>
              right
              simp only [readMessage, hcontains, hfield, bind, pure, Except.pure]
              rfl
          | _ =>
              left
              simp only [readMessage, hcontains, hfield, bind, pure, Except.pure]
              rfl
  | _ => exact .inl rfl

theorem Notifies.readMessage {msg : Json} {method : Str} (h : Notifies msg method) :
    readMessage msg =
      if method = "mining.set_difficulty".toList then
        ((((msg.entry "params".toList).getD .null).index 0).bind Json.getUInt64).map
          StratumMessage.setDifficulty
      else if method = "mining.notify".toList then
        ((((msg.entry "params".toList).getD .null).index 8).bind Json.getBool).map
          StratumMessage.notify
      else .ok .ignored := by
  obtain ⟨hid, hmethod⟩ := h
  cases msg with
  | object fields =>
      have hstring : (Json.find? fields "method".toList).getD .null = .string method :=
        getD_eq_string.mpr hmethod
      have htest : ∀ s : Str, (Json.string method).eqString s = decide (method = s) := fun _ => rfl
      rw [readMessage_null hid, hstring, htest, htest]
      simp only [decide_eq_true_eq]
      rfl
  | _ => cases hid

theorem readMessage_setDifficulty_iff {msg : Json}
    (h : Notifies msg "mining.set_difficulty".toList) :
    ((∃ m, readMessage msg = .ok m) ↔ HasDivisor msg) ∧
      ∀ clean, readMessage msg ≠ .ok (.notify clean) := by
  rw [h.readMessage, if_pos rfl]
  refine ⟨⟨?_, ?_⟩, ?_⟩
  · rintro ⟨m, hm⟩
    obtain ⟨D, hD, -⟩ := except_map_eq_ok.mp hm
    obtain ⟨elements, v, hparams, hget, hv⟩ := (index_bind_ok_iff nofun _ _ _).mp hD
    exact ⟨elements, v, getD_eq_array.mp hparams, hget, (getUInt64_ok_iff v).mp ⟨D, hv⟩⟩
  · rintro ⟨elements, v, hparams, hget, hv⟩
    obtain ⟨D, hD⟩ := (getUInt64_ok_iff v).mpr hv
    have hread := (index_bind_ok_iff nofun _ 0 D).mpr
      ⟨elements, v, getD_eq_array.mpr hparams, hget, hD⟩
    exact ⟨.setDifficulty D, by rw [hread]; rfl⟩
  · intro clean hm
    obtain ⟨D, -, hD⟩ := except_map_eq_ok.mp hm
    cases hD

theorem readMessage_of_divisor {msg v : Json} {elements : List Json} {divisor : UInt64}
    (h : Notifies msg "mining.set_difficulty".toList)
    (hparams : msg.entry "params".toList = some (.array elements)) (hv : elements[0]? = some v)
    (hdivisor : v.getUInt64 = .ok divisor) : readMessage msg = .ok (.setDifficulty divisor) := by
  rw [h.readMessage, if_pos rfl, (index_bind_ok_iff nofun _ 0 divisor).mpr
    ⟨elements, v, getD_eq_array.mpr hparams, hv, hdivisor⟩]
  rfl

theorem readMessage_notify_iff {msg : Json} (h : Notifies msg "mining.notify".toList)
    (m : StratumMessage) :
    readMessage msg = .ok m ↔ ∃ clean, HasFlag msg clean ∧ m = .notify clean := by
  rw [h.readMessage, if_neg (by decide), if_pos rfl]
  constructor
  · intro hm
    obtain ⟨clean, hclean, rfl⟩ := except_map_eq_ok.mp hm
    obtain ⟨elements, w, hparams, hget, hw⟩ := (index_bind_ok_iff nofun _ _ _).mp hclean
    cases w with
    | boolean b =>
        cases hw
        exact ⟨clean, ⟨elements, getD_eq_array.mp hparams, hget⟩, rfl⟩
    | _ => cases hw
  · rintro ⟨clean, ⟨elements, hparams, hget⟩, rfl⟩
    have hread := (index_bind_ok_iff (f := Json.getBool) nofun _ 8 clean).mpr
      ⟨elements, _, getD_eq_array.mpr hparams, hget, rfl⟩
    rw [hread]
    rfl

/-- Any other value is read without a failing access, as a response or as nothing. -/
theorem readMessage_rest {msg : Json} (hdifficulty : ¬ Notifies msg "mining.set_difficulty".toList)
    (hnotify : ¬ Notifies msg "mining.notify".toList) :
    readMessage msg = .ok .ignored ∨ readMessage msg = .ok .shareResponse := by
  by_cases hid : msg.entry "id".toList = some .null
  · left
    cases msg with
    | object fields =>
        have htest : ∀ s : Str, ¬ Notifies (.object fields) s →
            ((Json.find? fields "method".toList).getD .null).eqString s = false := by
          intro s hs
          rw [Bool.eq_false_iff, ne_eq, eqString_iff, getD_eq_string]
          exact fun hmethod => hs ⟨hid, hmethod⟩
        rw [readMessage_null hid, htest _ hdifficulty, htest _ hnotify]
        rfl
    | _ => cases hid
  · exact readMessage_other hid

theorem notifies_unique {msg : Json} {a b : Str} (ha : Notifies msg a) (hb : Notifies msg b) :
    a = b :=
  Json.string.inj (Option.some.inj (ha.2.symm.trans hb.2))

theorem readMessage_ok_iff (msg : Json) : (∃ m, readMessage msg = .ok m) ↔ Readable msg := by
  by_cases hdifficulty : Notifies msg "mining.set_difficulty".toList
  · rw [(readMessage_setDifficulty_iff hdifficulty).1]
    constructor
    · intro h
      refine ⟨fun _ => h, fun hnotify => ?_⟩
      exact absurd (notifies_unique hdifficulty hnotify) (by decide)
    · intro h
      exact h.divisor hdifficulty
  · by_cases hnotify : Notifies msg "mining.notify".toList
    · constructor
      · rintro ⟨m, hm⟩
        obtain ⟨clean, hflag, -⟩ := (readMessage_notify_iff hnotify m).mp hm
        exact ⟨fun h => absurd h hdifficulty, fun _ => ⟨clean, hflag⟩⟩
      · intro h
        obtain ⟨clean, hflag⟩ := h.flag hnotify
        exact ⟨_, (readMessage_notify_iff hnotify _).mpr ⟨clean, hflag, rfl⟩⟩
    · constructor
      · intro _
        exact ⟨fun h => absurd h hdifficulty, fun h => absurd h hnotify⟩
      · intro _
        rcases readMessage_rest hdifficulty hnotify with hm | hm
        · exact ⟨_, hm⟩
        · exact ⟨_, hm⟩

theorem notifies_of_readMessage {msg : Json} {clean : Bool}
    (h : readMessage msg = .ok (.notify clean)) :
    Notifies msg "mining.notify".toList ∧ HasFlag msg clean := by
  by_cases hdifficulty : Notifies msg "mining.set_difficulty".toList
  · exact absurd h ((readMessage_setDifficulty_iff hdifficulty).2 clean)
  · by_cases hnotify : Notifies msg "mining.notify".toList
    · obtain ⟨clean', hflag, hm⟩ := (readMessage_notify_iff hnotify _).mp h
      cases hm
      exact ⟨hnotify, hflag⟩
    · rcases readMessage_rest hdifficulty hnotify with hm | hm
      · exact nomatch hm.symm.trans h
      · exact nomatch hm.symm.trans h

theorem notifies_of_setDifficulty {msg : Json} {divisor : UInt64}
    (h : readMessage msg = .ok (.setDifficulty divisor)) :
    Notifies msg "mining.set_difficulty".toList := by
  by_contra hdifficulty
  by_cases hnotify : Notifies msg "mining.notify".toList
  · obtain ⟨clean, -, hm⟩ := (readMessage_notify_iff hnotify _).mp h
    cases hm
  · rcases readMessage_rest hdifficulty hnotify with hm | hm
    · exact nomatch hm.symm.trans h
    · exact nomatch hm.symm.trans h

/-! ## A response -/

/-- Constant `operator[](key)`: reading a missing key is undefined. -/
def Json.constField : Json → Str → Except JsonError Json
  | .object fields, key =>
    match find? fields key with
    | some v => .ok v
    | none => .error .undefined
  | _, _ => .error .typeError

/-- `msg.contains(key) && test(msg[key])`. -/
def Json.testField (msg : Json) (key : Str) (test : Json → Bool) : Except JsonError Bool := do
  if msg.contains key then return test (← msg.constField key) else return false

/-- `is_array() && size() > 1`. -/
def Json.hasTwo : Json → Bool
  | .array elements => decide (1 < elements.length)
  | _ => false

/-- `checkShareResponse` with its accesses, those for the log among them. -/
def readShareResponse (msg : Json) (stats : DispatcherStats) : Except JsonError DispatcherStats := do
  let _shareId ← (← msg.constField "id".toList).getUInt32
  if ← msg.testField "error".toList (fun e => !e.isNull) then
    let error ← msg.constField "error".toList
    if error.hasTwo then
      let _reason ← error.constIndex 1
      let _code ← error.constIndex 0
      return { stats with poolSharesRejected := stats.poolSharesRejected + 1 }
    else return { stats with poolSharesRejected := stats.poolSharesRejected + 1 }
  else if ← msg.testField "result".toList (fun r => r.eqBool true) then
    return { stats with poolSharesAccepted := stats.poolSharesAccepted + 1 }
  else return stats

theorem testField_object (fields : List (Str × Json)) (key : Str) (test : Json → Bool) :
    (Json.object fields).testField key test = .ok ((Json.object fields).fieldSatisfies key test) := by
  cases hfind : Json.find? fields key with
  | none =>
      rw [Json.testField, Json.contains, hfind, Json.fieldSatisfies, hfind]
      rfl
  | some v =>
      rw [Json.testField, Json.contains, hfind, Json.fieldSatisfies, hfind, Json.constField, hfind]
      rfl

theorem readShareResponse_ok {msg : Json} (h : readMessage msg = .ok .shareResponse)
    (stats : DispatcherStats) :
    readShareResponse msg stats = .ok (checkShareResponse msg stats) := by
  obtain ⟨id, hid⟩ := readMessage_shareResponse h
  cases msg with
  | object fields =>
      have hfind : Json.find? fields "id".toList = some (.unsigned id) := by
        cases hfind : Json.find? fields "id".toList with
        | none =>
            rw [Json.field, hfind] at hid
            cases hid
        | some v =>
            rw [Json.field, hfind] at hid
            exact congrArg some (Except.ok.inj hid)
      have hshareId : (Json.object fields).constField "id".toList = .ok (.unsigned id) := by
        rw [Json.constField, hfind]
      rw [readShareResponse, hshareId, testField_object, testField_object, checkShareResponse]
      show (if (Json.object fields).fieldSatisfies "error".toList (fun e => !e.isNull) then _ else _)
        = _
      split
      next herror =>
        obtain ⟨error, hentry⟩ : ∃ error, Json.find? fields "error".toList = some error := by
          rw [Json.fieldSatisfies] at herror
          cases hentry : Json.find? fields "error".toList with
          | none =>
              rw [hentry] at herror
              cases herror
          | some error => exact ⟨error, rfl⟩
        have hread : (Json.object fields).constField "error".toList = .ok error := by
          rw [Json.constField, hentry]
        rw [hread]
        show (if error.hasTwo then _ else _) = _
        cases hlength : error.hasTwo with
        | false => rfl
        | true =>
            cases error with
            | array elements =>
                match elements, hlength with
                | code :: reason :: _, _ => rfl
            | _ => cases hlength
      next =>
        show (if (Json.object fields).fieldSatisfies "result".toList (fun r => r.eqBool true)
          then _ else _) = _
        split <;> rfl
  | _ => cases hid

/-! ## `distributeTask` -/

/-- The element is a string. -/
def stringAt (elements : List Json) (i : Nat) (s : Str) : Prop := elements[i]? = some (.string s)

theorem stringParam_array (elements : List Json) (i : Nat) (s : Str) :
    stringParam (.array elements) i = .ok s ↔ stringAt elements i s := by
  rw [stringParam, stringAt]
  show ((Json.array elements).constIndex i).bind Json.getString = .ok s ↔ _
  constructor
  · intro h
    obtain ⟨w, hw, hs⟩ := except_bind_eq_ok.mp h
    rw [Json.constIndex] at hw
    cases hget : elements[i]? with
    | none =>
        rw [hget] at hw
        cases hw
    | some x =>
        rw [hget] at hw
        cases hw
        cases w with
        | string t => cases hs; rfl
        | _ => cases hs
  · intro h
    rw [Json.constIndex, h]
    rfl

/-- What `distributeTask` asks of the parameters. -/
def DistributableParams (elements : List Json) : Prop :=
  ∃ taskId prevHash version nbits ntime,
    stringAt elements 0 taskId ∧ stringAt elements 1 prevHash ∧ stringAt elements 5 version ∧
    stringAt elements 6 nbits ∧ stringAt elements 7 ntime ∧
    -- the other fields are read if these have the right sizes
    ((hexToBytes version .LittleEndian).length = 4 → (hexToBytes prevHash .BigEndian).length = 32 →
      (hexToBytes ntime .LittleEndian).length = 4 → (hexToBytes nbits .LittleEndian).length = 4 →
      ∃ coinbase1 coinbase2 branches, stringAt elements 2 coinbase1 ∧ stringAt elements 3 coinbase2 ∧
        elements[4]? = some branches ∧ ∀ branch ∈ branches.elements, branch.isString = true)

theorem mapM_ok_iff {α β : Type} {f : α → Except JsonError β} : ∀ {xs : List α},
    (∃ ys, xs.mapM f = .ok ys) ↔ ∀ x ∈ xs, ∃ y, f x = .ok y
  | [] => ⟨fun _ _ hx => absurd hx List.not_mem_nil, fun _ => ⟨[], rfl⟩⟩
  | x :: xs => by
      rw [List.mapM_cons]
      show (∃ ys, (f x).bind (fun y => (xs.mapM f).bind fun ys => .ok (y :: ys)) = .ok ys) ↔ _
      constructor
      · rintro ⟨ys, h⟩ z hz
        obtain ⟨y, hy, h⟩ := except_bind_eq_ok.mp h
        obtain ⟨rest, hrest, -⟩ := except_bind_eq_ok.mp h
        rcases List.mem_cons.mp hz with rfl | hz
        · exact ⟨y, hy⟩
        · exact mapM_ok_iff.mp ⟨rest, hrest⟩ z hz
      · intro h
        obtain ⟨y, hy⟩ := h x List.mem_cons_self
        obtain ⟨ys, hys⟩ := mapM_ok_iff.mpr fun z hz => h z (List.mem_cons_of_mem _ hz)
        exact ⟨y :: ys, by rw [hy, hys]; rfl⟩

theorem getString_ok_iff (v : Json) : (∃ s, v.getString = .ok s) ↔ v.isString = true := by
  cases v with
  | string s => exact ⟨fun _ => rfl, fun _ => ⟨s, rfl⟩⟩
  | _ => simp [Json.getString, Json.isString]

theorem branches_ok_iff (list : Json) :
    (∃ branches : List (List UInt8), (list.elements.mapM fun branch => do
        return hexToBytes (← branch.getString) .BigEndian) = Except.ok (ε := JsonError) branches) ↔
      ∀ branch ∈ list.elements, branch.isString = true := by
  rw [mapM_ok_iff]
  refine forall_congr' fun branch => forall_congr' fun _ => ?_
  rw [← getString_ok_iff]
  show (∃ bytes, (branch.getString.bind fun s => .ok (hexToBytes s .BigEndian)) = .ok bytes) ↔ _
  constructor
  · rintro ⟨bytes, h⟩
    obtain ⟨s, hs, -⟩ := except_bind_eq_ok.mp h
    exact ⟨s, hs⟩
  · rintro ⟨s, hs⟩
    exact ⟨_, by rw [hs]; rfl⟩

theorem parseTask_ok_iff (elements : List Json) (extraNonce1 : List UInt8)
    (currentPoolDifficulty : DifficultyTarget) :
    (∃ p, parseTask (.array elements) extraNonce1 currentPoolDifficulty = .ok p) ↔
      DistributableParams elements := by
  simp only [parseTask, bind, pure, Except.pure]
  constructor
  · rintro ⟨p, h⟩
    obtain ⟨taskId, htaskId, h⟩ := except_bind_eq_ok.mp h
    obtain ⟨version, hversion, h⟩ := except_bind_eq_ok.mp h
    obtain ⟨ntime, hntime, h⟩ := except_bind_eq_ok.mp h
    obtain ⟨nbits, hnbits, h⟩ := except_bind_eq_ok.mp h
    obtain ⟨prevHash, hprevHash, h⟩ := except_bind_eq_ok.mp h
    rw [stringParam_array] at htaskId hversion hntime hnbits hprevHash
    refine ⟨taskId, prevHash, version, nbits, ntime, htaskId, hprevHash, hversion, hnbits, hntime, ?_⟩
    intro h1 h2 h3 h4
    rw [if_neg (by rw [wordSwap_length]; simp [h1, h2, h3, h4])] at h
    obtain ⟨coinbase1, hcoinbase1, h⟩ := except_bind_eq_ok.mp h
    obtain ⟨coinbase2, hcoinbase2, h⟩ := except_bind_eq_ok.mp h
    obtain ⟨list, hlist, h⟩ := except_bind_eq_ok.mp h
    obtain ⟨branches, hbranches, -⟩ := except_bind_eq_ok.mp h
    rw [stringParam_array] at hcoinbase1 hcoinbase2
    refine ⟨coinbase1, coinbase2, list, hcoinbase1, hcoinbase2, ?_,
      (branches_ok_iff list).mp ⟨branches, hbranches⟩⟩
    rw [Json.constIndex] at hlist
    cases hget : elements[4]? with
    | none =>
        rw [hget] at hlist
        cases hlist
    | some x =>
        rw [hget] at hlist
        cases hlist
        rfl
  · rintro ⟨taskId, prevHash, version, nbits, ntime, htaskId, hprevHash, hversion, hnbits, hntime,
      hrest⟩
    rw [← stringParam_array] at htaskId hversion hntime hnbits hprevHash
    simp only [htaskId, hversion, hntime, hnbits, hprevHash, Except.bind]
    split
    · exact ⟨_, rfl⟩
    next hsizes =>
      simp only [wordSwap_length, not_or, ne_eq, not_not] at hsizes
      obtain ⟨h1, h2, h3, h4⟩ := hsizes
      obtain ⟨coinbase1, coinbase2, list, hcoinbase1, hcoinbase2, hlist, hbranch⟩ := hrest h1 h2 h3 h4
      obtain ⟨branches, hbranches⟩ := (branches_ok_iff list).mpr hbranch
      rw [← stringParam_array] at hcoinbase1 hcoinbase2
      have hfour : (Json.array elements).constIndex 4 = .ok list := by
        rw [Json.constIndex, hlist]
      simp only [hcoinbase1, hcoinbase2, hfour]
      simp only [bind, pure, Except.pure, Except.bind] at hbranches
      exact ⟨_, by rw [hbranches]⟩

section
variable (signTaskPacket : List UInt8 → ByteArr 64)

theorem prepareTask_ok_iff (buffer : ByteArr packetBufferSize) (params : Json)
    (extraNonce1 : List UInt8) (currentPoolDifficulty : DifficultyTarget) (cleanJobQueue : Bool)
    (now : UInt64) :
    (∃ outcome, prepareTask signTaskPacket buffer params extraNonce1 currentPoolDifficulty
        cleanJobQueue now = .ok outcome) ↔
      ∃ p, parseTask params extraNonce1 currentPoolDifficulty = .ok p := by
  simp only [prepareTask, bind, pure, Except.pure]
  constructor
  · rintro ⟨outcome, h⟩
    obtain ⟨p, hp, -⟩ := except_bind_eq_ok.mp h
    exact ⟨p, hp⟩
  · rintro ⟨p, hp⟩
    rw [hp]
    cases p with
    | none => exact ⟨_, rfl⟩
    | some p =>
        show ∃ outcome, (if totalNumBytes p.dispatcherTask > packetBufferSize then _ else _)
          = Except.ok outcome
        split
        · exact ⟨_, rfl⟩
        · show ∃ outcome, (if _ ≠ totalNumBytes p.dispatcherTask then _ else _) = Except.ok outcome
          split <;> exact ⟨_, rfl⟩

/-- A job with its parameters in order. -/
def Distributable (task : Json) : Prop :=
  ∃ elements, task.entry "params".toList = some (.array elements) ∧ DistributableParams elements

/-- A call for a notify that the loop has read completes just when the
parameters are in order. -/
theorem distributeTask_ok_iff {task : Json} {clean : Bool} (hflag : HasFlag task clean)
    (st : DistState) (currentPoolDifficulty : DifficultyTarget) (extraNonce1 : List UInt8)
    (propagateCleanJobFlag : Bool) (now : UInt64) :
    (∃ result, distributeTask signTaskPacket task st currentPoolDifficulty extraNonce1
        propagateCleanJobFlag now = .ok result) ↔ Distributable task := by
  obtain ⟨elements, hparams, hget⟩ := hflag
  have hfield := field_of_entry hparams
  have hclean : cleanFlag (.array elements) propagateCleanJobFlag
      = .ok (clean || propagateCleanJobFlag) := by
    rw [cleanFlag, Json.constIndex, hget]
    rfl
  have hshape : Distributable task ↔ DistributableParams elements := by
    constructor
    · rintro ⟨elements', hparams', h⟩
      rw [hparams] at hparams'
      cases hparams'
      exact h
    · intro h
      exact ⟨elements, hparams, h⟩
  rw [hshape, ← parseTask_ok_iff elements extraNonce1 currentPoolDifficulty,
    ← prepareTask_ok_iff signTaskPacket st.buffer (.array elements) extraNonce1 currentPoolDifficulty
      (clean || propagateCleanJobFlag) now]
  simp only [distributeTask, bind, pure, Except.pure]
  constructor
  · rintro ⟨result, h⟩
    obtain ⟨params, hp, h⟩ := except_bind_eq_ok.mp h
    rw [hfield] at hp
    cases hp
    obtain ⟨flag, hf, h⟩ := except_bind_eq_ok.mp h
    rw [hclean] at hf
    cases hf
    obtain ⟨outcome, houtcome, -⟩ := except_bind_eq_ok.mp h
    exact ⟨outcome, houtcome⟩
  · rintro ⟨outcome, houtcome⟩
    simp only [Except.bind, hfield, hclean, houtcome]
    cases outcome <;> exact ⟨_, rfl⟩

/-! ## An iteration -/

/-- What an iteration reads and writes. -/
structure DistLocals where
  currentPoolDifficulty : DifficultyTarget
  dist : DistState

/-- A message that is no notify. -/
def DistLocals.apply (l : DistLocals) (msg : Json) : StratumMessage → Except JsonError DistLocals
  | .setDifficulty divisor => return {
      currentPoolDifficulty := announcedTarget poolBaseDifficulty divisor
      dist := { l.dist with stats := { l.dist.stats with poolDifficulty := divisor } } }
  | .shareResponse => do
    let stats ← readShareResponse msg l.dist.stats
    return { l with dist := { l.dist with stats } }
  | .ignored | .notify _ => return l

/-- The inner loop over the messages it finds in the queue, with `latestNotify`
and `cleanJobQueue`. -/
def drain (l : DistLocals) (latest : Json) (cleanJobQueue : Bool) :
    List Json → Except JsonError (DistLocals × Json × Bool)
  | [] => .ok (l, latest, cleanJobQueue)
  | msg :: rest => do
    match ← readMessage msg with
    | .notify nextClean => drain l msg (cleanJobQueue || nextClean) rest
    | other => drain (← l.apply msg other) latest cleanJobQueue rest

/-- The body of the outer loop: the message popped, what the inner loop drains if
it is a notify, and the clock of the call. -/
def iteration (extraNonce1 : List UInt8) (l : DistLocals) (msg : Json) (drained : List Json)
    (now : UInt64) : Except JsonError DistLocals := do
  match ← readMessage msg with
  | .notify clean =>
    let (l, latest, cleanJobQueue) ← drain l msg clean drained
    let (dist, _) ← distributeTask signTaskPacket latest l.dist l.currentPoolDifficulty extraNonce1
      cleanJobQueue now
    return { l with dist }
  | other => l.apply msg other

variable {signTaskPacket}

/-- The message announces a job. -/
def isJob (msg : Json) : Bool :=
  ((msg.entry "id".toList).map Json.isNull).getD false &&
    ((msg.entry "method".toList).map (Json.eqString · "mining.notify".toList)).getD false

theorem isJob_iff (msg : Json) : isJob msg = true ↔ Notifies msg "mining.notify".toList := by
  rw [isJob, Notifies, Bool.and_eq_true]
  refine and_congr ?_ ?_
  · cases msg.entry "id".toList with
    | none => exact ⟨nofun, nofun⟩
    | some v => cases v <;> simp [Json.isNull]
  · cases msg.entry "method".toList with
    | none => exact ⟨nofun, nofun⟩
    | some v =>
        show v.eqString "mining.notify".toList = true ↔ _
        rw [eqString_iff, Option.some.injEq]

/-- The job that is distributed. -/
def latestOf (latest : Json) : List Json → Json
  | [] => latest
  | msg :: rest => latestOf (if isJob msg then msg else latest) rest

/-- Nothing but its reading can fail on a message that is no notify. -/
theorem DistLocals.apply_ok {msg : Json} {m : StratumMessage} (l : DistLocals)
    (h : readMessage msg = .ok m) : ∃ l', l.apply msg m = .ok l' := by
  cases m with
  | shareResponse =>
      refine ⟨{ l with dist := { l.dist with stats := checkShareResponse msg l.dist.stats } }, ?_⟩
      rw [DistLocals.apply, readShareResponse_ok h]
      rfl
  | _ => exact ⟨_, rfl⟩

theorem readable_cases {msg : Json} (h : Readable msg) :
    (isJob msg = true ∧ ∃ clean, HasFlag msg clean ∧ readMessage msg = .ok (.notify clean)) ∨
    (isJob msg = false ∧ ∃ m, readMessage msg = .ok m ∧ ∀ clean, m ≠ .notify clean) := by
  obtain ⟨m, hm⟩ := (readMessage_ok_iff msg).mpr h
  by_cases hjob : isJob msg = true
  · obtain ⟨clean, hflag, rfl⟩ := (readMessage_notify_iff ((isJob_iff msg).mp hjob) m).mp hm
    exact .inl ⟨hjob, clean, hflag, hm⟩
  · refine .inr ⟨Bool.eq_false_iff.mpr hjob, m, hm, ?_⟩
    rintro clean rfl
    exact hjob ((isJob_iff msg).mpr (notifies_of_readMessage hm).1)

theorem drain_notify {l : DistLocals} {latest msg : Json} {clean next : Bool}
    (h : readMessage msg = .ok (.notify next)) (rest : List Json) :
    drain l latest clean (msg :: rest) = drain l msg (clean || next) rest := by
  rw [drain, h]
  rfl

theorem drain_other {l : DistLocals} {latest msg : Json} {clean : Bool} {m : StratumMessage}
    (h : readMessage msg = .ok m) (hother : ∀ next, m ≠ .notify next) (rest : List Json) :
    drain l latest clean (msg :: rest)
      = (l.apply msg m).bind fun l' => drain l' latest clean rest := by
  rw [drain, h, except_ok_bind]
  cases m with
  | notify next => exact absurd rfl (hother next)
  | _ => rfl

/-- The inner loop gets through readable messages, and ends with the last job. -/
theorem drain_ok_iff : ∀ {drained : List Json} {l : DistLocals} {latest : Json} {clean : Bool},
    (∃ flag, HasFlag latest flag) →
    ((∃ result, drain l latest clean drained = .ok result) ↔ ∀ msg ∈ drained, Readable msg) ∧
    ∀ result, drain l latest clean drained = .ok result →
      result.2.1 = latestOf latest drained ∧ ∃ flag, HasFlag result.2.1 flag
  | [], l, latest, clean, hflag => by
      refine ⟨⟨fun _ msg hmsg => absurd hmsg List.not_mem_nil, fun _ => ⟨_, rfl⟩⟩, ?_⟩
      intro result h
      cases h
      exact ⟨rfl, hflag⟩
  | msg :: rest, l, latest, clean, hflag => by
      by_cases hread : Readable msg
      · have hall : (∀ m ∈ msg :: rest, Readable m) ↔ ∀ m ∈ rest, Readable m :=
          ⟨fun h m hm => h m (List.mem_cons_of_mem _ hm), fun h m hm => by
            rcases List.mem_cons.mp hm with rfl | hm
            · exact hread
            · exact h m hm⟩
        rw [hall]
        rcases readable_cases hread with ⟨hjob, next, hnext, hm⟩ | ⟨hjob, m, hm, hother⟩
        · rw [drain_notify hm, latestOf, if_pos hjob]
          exact drain_ok_iff ⟨next, hnext⟩
        · obtain ⟨l', hl'⟩ := l.apply_ok hm
          rw [drain_other hm hother, hl', latestOf, if_neg (by rw [hjob]; decide)]
          exact drain_ok_iff hflag
      · have hfails : ∀ result, drain l latest clean (msg :: rest) ≠ .ok result := by
          intro result h
          rw [drain] at h
          obtain ⟨m, hm, -⟩ := except_bind_eq_ok.mp h
          exact hread ((readMessage_ok_iff msg).mp ⟨m, hm⟩)
        refine ⟨⟨?_, fun h => absurd (h msg List.mem_cons_self) hread⟩, ?_⟩
        · rintro ⟨result, h⟩
          exact absurd h (hfails result)
        · intro result h
          exact absurd h (hfails result)

theorem iteration_other {extraNonce1 : List UInt8} {l : DistLocals} {msg : Json}
    {m : StratumMessage} (h : readMessage msg = .ok m) (hother : ∀ next, m ≠ .notify next)
    (drained : List Json) (now : UInt64) :
    iteration signTaskPacket extraNonce1 l msg drained now = l.apply msg m := by
  rw [iteration, h, except_ok_bind]
  cases m with
  | notify next => exact absurd rfl (hother next)
  | _ => rfl

theorem iteration_notify {extraNonce1 : List UInt8} {l : DistLocals} {msg : Json} {clean : Bool}
    (h : readMessage msg = .ok (.notify clean)) (drained : List Json) (now : UInt64) :
    iteration signTaskPacket extraNonce1 l msg drained now
      = (drain l msg clean drained).bind fun r =>
          (distributeTask signTaskPacket r.2.1 r.1.dist r.1.currentPoolDifficulty extraNonce1 r.2.2
            now).bind fun result => .ok { r.1 with dist := result.1 } := by
  rw [iteration, h, except_ok_bind]
  rfl

/-- An iteration completes just when the message it pops is readable and, if that
is a job, so are the messages behind it and the parameters of the last job are
in order. -/
theorem iteration_ok_iff (extraNonce1 : List UInt8) (l : DistLocals) (msg : Json)
    (drained : List Json) (now : UInt64) :
    (∃ l', iteration signTaskPacket extraNonce1 l msg drained now = .ok l') ↔
      Readable msg ∧ (Notifies msg "mining.notify".toList →
        (∀ m ∈ drained, Readable m) ∧ Distributable (latestOf msg drained)) := by
  by_cases hread : Readable msg
  · rcases readable_cases hread with ⟨hjob, clean, hflag, hm⟩ | ⟨hjob, m, hm, hother⟩
    · obtain ⟨hdrain, hlatest⟩ := @drain_ok_iff drained l msg clean ⟨clean, hflag⟩
      rw [iteration_notify hm, ← hdrain]
      constructor
      · rintro ⟨l', h⟩
        obtain ⟨r, hr, h⟩ := except_bind_eq_ok.mp h
        obtain ⟨result, hresult, -⟩ := except_bind_eq_ok.mp h
        obtain ⟨heq, flag, hflag'⟩ := hlatest r hr
        refine ⟨hread, fun _ => ⟨⟨r, hr⟩, ?_⟩⟩
        rw [← heq]
        exact (distributeTask_ok_iff signTaskPacket hflag' _ _ _ _ _).mp ⟨result, hresult⟩
      · rintro ⟨-, h⟩
        obtain ⟨⟨r, hr⟩, htask⟩ := h ((isJob_iff msg).mp hjob)
        obtain ⟨heq, flag, hflag'⟩ := hlatest r hr
        rw [← heq] at htask
        obtain ⟨result, hresult⟩ := (distributeTask_ok_iff signTaskPacket hflag' r.1.dist
          r.1.currentPoolDifficulty extraNonce1 r.2.2 now).mpr htask
        exact ⟨_, by rw [hr, Except.bind, hresult]; rfl⟩
    · have hjob' : ¬ Notifies msg "mining.notify".toList := by
        rw [← isJob_iff, hjob]
        decide
      obtain ⟨l', hl'⟩ := l.apply_ok hm
      rw [iteration_other hm hother]
      exact ⟨fun _ => ⟨hread, fun h => absurd h hjob'⟩, fun _ => ⟨l', hl'⟩⟩
  · constructor
    · rintro ⟨l', h⟩
      rw [iteration] at h
      obtain ⟨m, hm, -⟩ := except_bind_eq_ok.mp h
      exact absurd ((readMessage_ok_iff msg).mp ⟨m, hm⟩) hread
    · rintro ⟨h, -⟩
      exact absurd h hread

/-! ## The iterations of the loop -/

/-- What an iteration reads and writes of the loop. -/
def DistLoop.locals (s : DistLoop) : DistLocals := ⟨s.currentPoolDifficulty, s.dist⟩

/-- The result, where there is one. -/
def completed {α : Type} : Except JsonError α → Option α
  | .ok a => some a
  | .error _ => none

/-- The reads of a response never fail, so the loop applies a message as an
iteration does. -/
theorem locals_apply {s : DistLoop} {msg : StreamMessage} {m : StratumMessage}
    (h : readMessage msg.value = .ok m) :
    s.locals.apply msg.value m = .ok (s.apply msg m).locals := by
  cases m with
  | shareResponse =>
      rw [DistLocals.apply, readShareResponse_ok h]
      rfl
  | _ => rfl

theorem drain_exec (extraNonce1 : List UInt8) (now : UInt64) : ∀ {rest : List StreamMessage}
    {s : DistLoop} {latest : StreamMessage} {clean : Bool}, s.phase = .draining latest clean →
    s.queue.items = rest →
    (Run.exec (loopStep signTaskPacket extraNonce1) s
        (List.replicate (rest.length + 1) (.tryPop now))).map DistLoop.locals
      = completed ((drain s.locals latest.value clean (rest.map StreamMessage.value)).bind fun r =>
          (distributeTask signTaskPacket r.2.1 r.1.dist r.1.currentPoolDifficulty extraNonce1 r.2.2
            now).bind fun result => .ok { r.1 with dist := result.1 })
  | [], s, latest, clean, hphase, hqueue => by
      have hpop : s.queue.tryPop = none := ConcurrentQueue.tryPop_eq_none.mpr hqueue
      show ((loopStep signTaskPacket extraNonce1 s (.tryPop now)).bind some).map DistLoop.locals
        = completed ((distributeTask signTaskPacket latest.value s.dist s.currentPoolDifficulty
            extraNonce1 clean now).bind fun result => .ok { s.locals with dist := result.1 })
      simp only [loopStep, hphase, hpop, NotifyCall.run, DistLoop.call]
      cases distributeTask signTaskPacket latest.value s.dist s.currentPoolDifficulty extraNonce1
          clean now with
      | error e => rfl
      | ok result =>
          obtain ⟨dist, task⟩ := result
          cases task <;> rfl
  | msg :: rest, s, latest, clean, hphase, hqueue => by
      have hpop : s.queue.tryPop = some (msg, ⟨rest⟩) := ConcurrentQueue.tryPop_eq_some.mpr hqueue
      rw [List.length_cons, List.replicate_succ, Run.exec, List.map_cons]
      cases hread : readMessage msg.value with
      | error e =>
          simp only [loopStep, hphase, hpop, hread, drain]
          rfl
      | ok m =>
          by_cases hnotify : ∃ next, m = .notify next
          · obtain ⟨next, rfl⟩ := hnotify
            have hstep : loopStep signTaskPacket extraNonce1 s (.tryPop now)
                = some { s.take msg ⟨rest⟩ with phase := .draining msg (clean || next) } := by
              simp only [loopStep, hphase, hpop, hread]
            rw [hstep, Option.bind_some, drain_notify hread]
            exact drain_exec extraNonce1 now rfl rfl
          · have hother : ∀ next, m ≠ .notify next := fun next h => hnotify ⟨next, h⟩
            have hframe := (s.take msg ⟨rest⟩).apply_sameJobs msg m
            have hstep : loopStep signTaskPacket extraNonce1 s (.tryPop now)
                = some ((s.take msg ⟨rest⟩).apply msg m) := by
              cases m with
              | notify next => exact absurd rfl (hother next)
              | _ => simp only [loopStep, hphase, hpop, hread]
            have hlocals : s.locals.apply msg.value m = .ok ((s.take msg ⟨rest⟩).apply msg m).locals :=
              locals_apply (s := s.take msg ⟨rest⟩) hread
            rw [hstep, Option.bind_some, drain_other hread hother, hlocals]
            exact drain_exec extraNonce1 now (hframe.phase.trans hphase)
              (congrArg ConcurrentQueue.items hframe.queue)

theorem iteration_exec (extraNonce1 : List UInt8) (now : UInt64) {s : DistLoop}
    {msg : StreamMessage} {rest : List StreamMessage} (hphase : s.phase = .idle)
    (hqueue : s.queue.items = msg :: rest) :
    (Run.exec (loopStep signTaskPacket extraNonce1) s
        (.pop :: if isJob msg.value then List.replicate (rest.length + 1) (.tryPop now) else [])).map
        DistLoop.locals
      = completed (iteration signTaskPacket extraNonce1 s.locals msg.value
          (rest.map StreamMessage.value) now) := by
  have hpop : s.queue.tryPop = some (msg, ⟨rest⟩) := ConcurrentQueue.tryPop_eq_some.mpr hqueue
  rw [Run.exec]
  by_cases hreadable : Readable msg.value
  · rcases readable_cases hreadable with ⟨hjob, clean, -, hread⟩ | ⟨hjob, m, hread, hother⟩
    · have hstep : loopStep signTaskPacket extraNonce1 s .pop
          = some { s.take msg ⟨rest⟩ with phase := .draining msg clean } := by
        simp only [loopStep, hphase, hpop, hread]
      rw [hstep, Option.bind_some, if_pos hjob, iteration_notify hread]
      exact drain_exec extraNonce1 now rfl rfl
    · have hstep : loopStep signTaskPacket extraNonce1 s .pop
          = some ((s.take msg ⟨rest⟩).apply msg m) := by
        cases m with
        | notify next => exact absurd rfl (hother next)
        | _ => simp only [loopStep, hphase, hpop, hread]
      have hlocals : s.locals.apply msg.value m = .ok ((s.take msg ⟨rest⟩).apply msg m).locals :=
        locals_apply (s := s.take msg ⟨rest⟩) hread
      rw [hstep, Option.bind_some, if_neg (by rw [hjob]; decide), iteration_other hread hother, hlocals]
      rfl
  · cases hread : readMessage msg.value with
    | ok m => exact absurd ((readMessage_ok_iff msg.value).mp ⟨m, hread⟩) hreadable
    | error e =>
        rw [iteration, hread]
        simp only [loopStep, hphase, hpop, hread]
        rfl

end

end DogeConnect
