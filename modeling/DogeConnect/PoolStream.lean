/-
What the pool sends in a handshake, and how reads cut it.

The pool's bytes are lines, each the text of a message.  A read ends anywhere.
The first read is the first line, more or less; what is behind it is a stream
of lines again, and the second read is some of these and a piece of the next.

    first_read         the first read parses as the first message, or not at all
    after_first_read   behind it there are lines, with the other messages
    second_read        a read cuts one line, or takes them all
    parse_piece        a piece of a line parses just when it is the whole text
-/
import DogeConnect.JsonText
import DogeConnect.StratumRecv

namespace DogeConnect

/-! ## The pool's messages -/

inductive PoolMessage
  /-- The id 1 response, a success: `extraNonce1` and the size of `extraNonce2`. -/
  | subscribed (extraNonce1 : Str) (extraNonce2Size : Nat)
  | subscribeRefused
  /-- The id 2 response. -/
  | authorized
  | authorizeRefused
  | notification
  deriving DecidableEq, Repr

/-- A member, `null` where there is none. -/
def Json.member (fields : List (Str × Json)) (key : Str) : Json := (find? fields key).getD .null

theorem Json.field_object (fields : List (Str × Json)) (key : Str) :
    (object fields).field key = .ok (member fields key) := rfl

/-- The shapes of the messages. -/
inductive IsMessage : Json → PoolMessage → Prop
  | subscribed {fields : List (Str × Json)} {result : List Json} {extraNonce1 : Str} {size : Nat}
      (hid : (Json.member fields "id".toList).eqInt 1 = true)
      (herror : (Json.member fields "error".toList).isNull = true)
      (hresult : Json.member fields "result".toList = .array result)
      (hnonce : result[1]? = some (.string extraNonce1))
      (hsize : result[2]? = some (.unsigned size)) :
      IsMessage (.object fields) (.subscribed extraNonce1 size)
  | subscribeRefused {fields : List (Str × Json)}
      (hid : (Json.member fields "id".toList).eqInt 1 = true)
      (herror : (Json.member fields "error".toList).isNull = false) :
      IsMessage (.object fields) .subscribeRefused
  | authorized {fields : List (Str × Json)}
      (hid : (Json.member fields "id".toList).eqInt 2 = true)
      (hresult : (Json.member fields "result".toList).eqBool false = false)
      (herror : (Json.member fields "error".toList).isNull = true) :
      IsMessage (.object fields) .authorized
  | authorizeRefused {fields : List (Str × Json)}
      (hid : (Json.member fields "id".toList).eqInt 2 = true)
      (hrefused : (Json.member fields "result".toList).eqBool false = true ∨
        (Json.member fields "error".toList).isNull = false) :
      IsMessage (.object fields) .authorizeRefused
  | notification {fields : List (Str × Json)}
      (hid : Json.find? fields "id".toList = some .null) :
      IsMessage (.object fields) .notification

theorem IsMessage.isObject {m : Json} {k : PoolMessage} (h : IsMessage m k) :
    m.isObject = true := by
  cases h <;> rfl

/-- A message with an id of `null`. -/
def isNotification : Json → Bool
  | .object fields => ((Json.find? fields "id".toList).map Json.isNull).getD false
  | _ => false

theorem Json.eqInt_unique {v : Json} {i j : Int} (hi : v.eqInt i = true) (hj : v.eqInt j = true) :
    i = j := by
  cases v with
  | unsigned n => exact (of_decide_eq_true hi).symm.trans (of_decide_eq_true hj)
  | integer n => exact (of_decide_eq_true hi).symm.trans (of_decide_eq_true hj)
  | float q => exact_mod_cast (of_decide_eq_true hi).symm.trans (of_decide_eq_true hj)
  | _ => cases hi

theorem Json.isNull_of_eqInt {v : Json} {i : Int} (h : v.eqInt i = true) : v.isNull = false := by
  cases v with
  | null => cases h
  | _ => rfl

/-- How the handshake reads the first response. -/
def PoolMessage.asSubscribe : PoolMessage → SubscribeReply
  | .subscribed extraNonce1 size =>
    .subscribed (hexToBytes extraNonce1 .BigEndian) (UInt32.ofNat size)
  | _ => .rejected

theorem readSubscribeResponse_message {m : Json} {k : PoolMessage} (h : IsMessage m k) :
    readSubscribeResponse m = .ok k.asSubscribe := by
  have hother : ∀ {fields : List (Str × Json)},
      (Json.member fields "id".toList).eqInt 1 = false →
      readSubscribeResponse (.object fields) = .ok .rejected := by
    intro fields hid
    simp [-String.reduceToList, readSubscribeResponse, Json.field_object, except_ok_bind, hid, pure, Except.pure]
  have hnot : ∀ {v : Json}, v.eqInt 2 = true → v.eqInt 1 = false := by
    intro v hv
    rw [← Bool.not_eq_true]
    intro h1
    exact absurd (Json.eqInt_unique hv h1) (by decide)
  cases h with
  | subscribed hid herror hresult hnonce hsize =>
      simp [-String.reduceToList, readSubscribeResponse, Json.field_object, except_ok_bind, hid, herror, hresult,
        Json.constIndex_array hnonce, Json.constIndex_array hsize, Json.getUInt32,
        PoolMessage.asSubscribe, pure, Except.pure]
  | subscribeRefused hid herror =>
      simp [-String.reduceToList, readSubscribeResponse, Json.field_object, except_ok_bind, herror,
        PoolMessage.asSubscribe, pure, Except.pure]
  | authorized hid => exact hother (hnot hid)
  | authorizeRefused hid => exact hother (hnot hid)
  | notification hid => exact hother (by rw [Json.member, hid]; rfl)

/-- How the handshake reads a line of the second response. -/
def PoolMessage.asAuthorize (m : Json) : PoolMessage → AuthorizeLine
  | .notification => .message m
  | .authorizeRefused => .refused
  | _ => .nothing

theorem readAuthorizeLine_message {m : Json} {k : PoolMessage} (h : IsMessage m k) :
    readAuthorizeLine m = .ok (k.asAuthorize m) := by
  have hone : ∀ {fields : List (Str × Json)}, (Json.member fields "id".toList).eqInt 1 = true →
      readAuthorizeLine (.object fields) = .ok .nothing := by
    intro fields hid
    have htwo : (Json.member fields "id".toList).eqInt 2 = false := by
      rw [← Bool.not_eq_true]
      intro htwo
      exact absurd (Json.eqInt_unique hid htwo) (by decide)
    have hnull := Json.isNull_of_eqInt hid
    simp [-String.reduceToList, readAuthorizeLine, Json.field_object, except_ok_bind, htwo, hnull, pure, Except.pure]
  cases h with
  | subscribed hid => exact hone hid
  | subscribeRefused hid => exact hone hid
  | authorized hid hresult herror =>
      simp [-String.reduceToList, readAuthorizeLine, Json.field_object, except_ok_bind, hid, hresult, herror,
        PoolMessage.asAuthorize, pure, Except.pure]
  | @authorizeRefused fields hid hrefused =>
      cases hresult : (Json.member fields "result".toList).eqBool false with
      | true =>
          simp [-String.reduceToList, readAuthorizeLine, Json.field_object, except_ok_bind, hid, hresult,
            PoolMessage.asAuthorize, pure, Except.pure]
      | false =>
          rw [hresult] at hrefused
          have herror := hrefused.resolve_left Bool.false_ne_true
          simp [-String.reduceToList, readAuthorizeLine, Json.field_object, except_ok_bind, hid,
            herror, PoolMessage.asAuthorize, pure, Except.pure]
  | notification hid =>
      simp [-String.reduceToList, readAuthorizeLine, Json.field_object, Json.member, Json.withKey,
        except_ok_bind, hid, Json.eqInt,
        Json.isNull, PoolMessage.asAuthorize, pure, Except.pure]

theorem isNotification_message {m : Json} {k : PoolMessage} (h : IsMessage m k) :
    isNotification m = decide (k = .notification) := by
  have hnumber : ∀ {fields : List (Str × Json)} {i : Int},
      (Json.member fields "id".toList).eqInt i = true → isNotification (.object fields) = false := by
    intro fields i hid
    have hnull := Json.isNull_of_eqInt hid
    simp only [Json.member] at hnull
    cases hfind : Json.find? fields "id".toList with
    | none => rw [isNotification, hfind]; rfl
    | some v =>
        rw [hfind] at hnull
        rw [isNotification, hfind]
        exact hnull
  cases h with
  | subscribed hid => exact hnumber hid
  | subscribeRefused hid => exact hnumber hid
  | authorized hid => exact hnumber hid
  | authorizeRefused hid => exact hnumber hid
  | notification hid => rw [isNotification, hid]; rfl
/-! ## The stream -/

/-- A line as the pool sends it: the text of a message. -/
structure PoolLine (parse : Str → Option Json) where
  text : Str
  value : Json
  kind : PoolMessage
  newline : '\n' ∉ text
  clean : '\x00' ∉ text
  parsed : parse text = some value
  isMessage : IsMessage value kind

/-- Lines on the wire. -/
def wire (lines : List Str) : Str := lines.flatMap fun line => line ++ ['\n']

theorem wire_cons (line : Str) (lines : List Str) :
    wire (line :: lines) = line ++ '\n' :: wire lines := by
  simp [wire]

section
variable {parse : Str → Option Json}

/-- A line, or what reads have left of one. -/
structure GoodLine (parse : Str → Option Json) (line : Str) : Prop where
  newline : '\n' ∉ line
  clean : '\x00' ∉ line
  blank_or_message : Blank line ∨ ∃ m k, parse line = some m ∧ IsMessage m k

theorem PoolLine.good (l : PoolLine parse) : GoodLine parse l.text :=
  ⟨l.newline, l.clean, .inr ⟨l.value, l.kind, l.parsed, l.isMessage⟩⟩

theorem PoolLine.not_blank (laws : JsonText parse) (l : PoolLine parse) : ¬ Blank l.text := by
  intro h
  have hparsed := l.parsed
  rw [laws.blank h] at hparsed
  cases hparsed

theorem wire_clean : ∀ {lines : List Str}, (∀ line ∈ lines, '\x00' ∉ line) → '\x00' ∉ wire lines
  | [], _ => List.not_mem_nil
  | line :: lines, h => by
      rw [wire_cons, List.mem_append, List.mem_cons, not_or, not_or]
      exact ⟨h line List.mem_cons_self, by decide,
        wire_clean fun l hl => h l (List.mem_cons_of_mem _ hl)⟩

/-! ## The first read -/

/-- The first read is the first line, up to blanks. -/
def FirstRead (line read : Str) : Prop := ∃ w, Blank w ∧ (line = read ++ w ∨ read = line ++ w)

/-- A beginning of the stream is the first message, or does not parse. -/
theorem first_read (laws : JsonText parse) (l : PoolLine parse) {read later more : Str}
    (hclean : '\x00' ∉ more) (hsplit : read ++ later = l.text ++ '\n' :: more) :
    FirstRead l.text read ∧ parse read = some l.value ∨
      ¬ FirstRead l.text read ∧ parse read = none := by
  rcases List.append_eq_append_iff.mp hsplit with ⟨w, hw, hlater⟩ | ⟨w, hw, hmore⟩
  · -- the read ends inside the line, or at its end
    have hcut := parse_cut laws (hw ▸ l.parsed) l.isMessage.isObject (hw ▸ l.clean)
    by_cases hblank : Blank w
    · rw [if_pos hblank] at hcut
      exact .inl ⟨⟨w, hblank, .inl hw⟩, hcut⟩
    · rw [if_neg hblank] at hcut
      refine .inr ⟨?_, hcut⟩
      rintro ⟨w', hw', heq | heq⟩
      · rw [hw] at heq
        exact hblank (List.append_cancel_left heq ▸ hw')
      · rw [heq, List.append_assoc] at hw
        have hnil := List.append_eq_nil_iff.mp (List.self_eq_append_right.mp hw)
        exact hblank (hnil.2 ▸ blank_nil)
  · -- the read goes on behind the line
    have hclean' : '\x00' ∉ l.text ++ w := by
      rw [List.mem_append, not_or]
      refine ⟨l.clean, fun hmem => ?_⟩
      have hin : '\x00' ∈ '\n' :: more := hmore ▸ List.mem_append_left _ hmem
      rcases List.mem_cons.mp hin with h | h
      · exact absurd h (by decide)
      · exact hclean h
    have hcut := parse_more laws l.parsed l.isMessage.isObject hclean'
    by_cases hblank : Blank w
    · rw [if_pos hblank, ← hw] at hcut
      exact .inl ⟨⟨w, hblank, .inr hw⟩, hcut⟩
    · rw [if_neg hblank, ← hw] at hcut
      refine .inr ⟨?_, hcut⟩
      rintro ⟨w', hw', heq | heq⟩
      · rw [hw, List.append_assoc] at heq
        have hnil := List.append_eq_nil_iff.mp (List.self_eq_append_right.mp heq)
        exact hblank (hnil.1 ▸ blank_nil)
      · rw [hw] at heq
        exact hblank (List.append_cancel_left heq ▸ hw')

theorem filterMap_texts : ∀ lines : List (PoolLine parse),
    (lines.map PoolLine.text).filterMap parse = lines.map PoolLine.value
  | [] => rfl
  | l :: lines => by
      rw [List.map_cons, List.map_cons, List.filterMap_cons_some l.parsed, filterMap_texts lines]

theorem good_texts {lines : List (PoolLine parse)} :
    ∀ line ∈ lines.map PoolLine.text, GoodLine parse line := by
  intro line hline
  obtain ⟨l, -, rfl⟩ := List.mem_map.mp hline
  exact l.good

/-- Behind the first line there are lines again, with the messages to come. -/
theorem after_first_read (laws : JsonText parse) (l : PoolLine parse) {lines : List (PoolLine parse)}
    {read later : Str} (hsplit : read ++ later = l.text ++ '\n' :: wire (lines.map PoolLine.text))
    (hfirst : FirstRead l.text read) (hlines : lines ≠ []) :
    ∃ rest, later = wire rest ∧ (∀ line ∈ rest, GoodLine parse line) ∧
      rest.filterMap parse = lines.map PoolLine.value := by
  have hcons : ∀ {d : Str}, Blank d → GoodLine parse d → ∃ rest,
      d ++ '\n' :: wire (lines.map PoolLine.text) = wire rest ∧
        (∀ line ∈ rest, GoodLine parse line) ∧ rest.filterMap parse = lines.map PoolLine.value := by
    intro d hd hdgood
    refine ⟨d :: lines.map PoolLine.text, (wire_cons _ _).symm, ?_, ?_⟩
    · intro line hline
      rcases List.mem_cons.mp hline with rfl | hline
      · exact hdgood
      · exact good_texts line hline
    · rw [List.filterMap_cons_none (laws.blank hd), filterMap_texts]
  obtain ⟨w, hw, hline | hread⟩ := hfirst
  · -- blanks of the first line are left
    rw [hline, List.append_assoc] at hsplit
    rw [List.append_cancel_left hsplit]
    refine hcons hw ⟨fun h => l.newline ?_, fun h => l.clean ?_, .inl hw⟩
    · exact hline ▸ List.mem_append_right _ h
    · exact hline ▸ List.mem_append_right _ h
  · rw [hread, List.append_assoc] at hsplit
    have hrest := List.append_cancel_left hsplit
    cases w with
    | nil =>
        rw [List.nil_append] at hrest
        rw [hrest]
        exact hcons blank_nil ⟨List.not_mem_nil, List.not_mem_nil, .inl blank_nil⟩
    | cons c u =>
        -- the newline is read, and perhaps blanks of the second line
        obtain ⟨-, hrest⟩ := List.cons.inj hrest
        have hu : Blank u := by
          rw [Blank, List.all_cons, Bool.and_eq_true] at hw
          exact hw.2
        cases lines with
        | nil => exact absurd rfl hlines
        | cons l₂ ls =>
            rw [List.map_cons, wire_cons] at hrest
            rcases List.append_eq_append_iff.mp hrest with ⟨d, hd, hlater⟩ | ⟨d, hd, -⟩
            · have hparsed : parse d = some l₂.value :=
                laws.blank_left hu (hd ▸ l₂.parsed)
              refine ⟨d :: ls.map PoolLine.text, hlater.trans (wire_cons _ _).symm, ?_, ?_⟩
              · intro line hline
                rcases List.mem_cons.mp hline with rfl | hline
                · refine ⟨fun h => l₂.newline ?_, fun h => l₂.clean ?_,
                    .inr ⟨l₂.value, l₂.kind, hparsed, l₂.isMessage⟩⟩
                  · exact hd ▸ List.mem_append_right _ h
                  · exact hd ▸ List.mem_append_right _ h
                · exact good_texts line hline
              · rw [List.filterMap_cons_some hparsed, filterMap_texts, List.map_cons]
            · rw [hd] at hu
              exact absurd (blank_append.mp hu).1 (l₂.not_blank laws)

/-! ## The second read -/

/-- The piece `p` of a line, with `q` not yet read, is nothing or the whole
text of the line. -/
def Whole (p q : Str) : Prop := p = [] ∨ ¬ Blank p ∧ Blank q

/-- The pieces of lines in a read, each with what is left of its line when the
bytes `later` follow. -/
def pieces (read later : Str) : List (Str × Str) :=
  (cutLines read).1.map (fun line => (line, [])) ++
    [((cutLines read).2, later.takeWhile fun c => c ≠ '\n')]

theorem pieces_fst (read later : Str) : (pieces read later).map Prod.fst = responseLines read := by
  simp [pieces, responseLines, List.map_map, Function.comp_def]

theorem second_read : ∀ {lines : List Str} {read later : Str}, (∀ line ∈ lines, '\n' ∉ line) →
    read ++ later = wire lines →
    (∃ before p q after, lines = before ++ (p ++ q) :: after ∧ cutLines read = (before, p) ∧
      later = q ++ '\n' :: wire after) ∨
    (cutLines read = (lines, []) ∧ later = [])
  | [], read, later, _, h => by
      obtain ⟨rfl, rfl⟩ := List.append_eq_nil_iff.mp h
      exact .inr ⟨rfl, rfl⟩
  | line :: lines, read, later, hnewline, h => by
      have hline := hnewline line List.mem_cons_self
      rw [wire_cons] at h
      rcases List.append_eq_append_iff.mp h with ⟨q, hq, hlater⟩ | ⟨a, ha, hmore⟩
      · have hread : '\n' ∉ read := fun hmem => hline (hq ▸ List.mem_append_left _ hmem)
        exact .inl ⟨[], read, q, lines, by rw [hq]; rfl, cutLines_of_not_mem hread, hlater⟩
      · cases a with
        | nil =>
            rw [List.append_nil] at ha
            rw [List.nil_append] at hmore
            refine .inl ⟨[], line, [], lines, by simp, ?_, hmore.symm⟩
            rw [ha, cutLines_of_not_mem hline]
        | cons c a =>
            obtain ⟨rfl, htail⟩ := List.cons.inj hmore
            rcases second_read (fun l hl => hnewline l (List.mem_cons_of_mem _ hl)) htail.symm with
              ⟨before, p, q, after, hlines, hcut, hlater⟩ | ⟨hcut, hlater⟩
            · refine .inl ⟨line :: before, p, q, after, by rw [hlines]; rfl, ?_, hlater⟩
              rw [ha, cutLines_append_newline hline, hcut]
            · refine .inr ⟨?_, hlater⟩
              rw [ha, cutLines_append_newline hline, hcut]

/-- A piece that is not whole makes the parser throw; a whole one is nothing,
or the message of its line. -/
theorem parse_piece (laws : JsonText parse) {p q : Str} (h : GoodLine parse (p ++ q)) :
    Whole p q ∧ (p = [] ∨ ∃ m k, parse p = some m ∧ parse (p ++ q) = some m ∧ IsMessage m k) ∨
      ¬ Whole p q ∧ p ≠ [] ∧ parse p = none := by
  by_cases hp : p = []
  · exact .inl ⟨.inl hp, .inl hp⟩
  · rcases h.blank_or_message with hblank | ⟨m, k, hm, hk⟩
    · have hblank := (blank_append.mp hblank).1
      refine .inr ⟨?_, hp, laws.blank hblank⟩
      rintro (hnil | ⟨hnot, -⟩)
      · exact hp hnil
      · exact hnot hblank
    · have hcut := parse_cut laws hm hk.isObject h.clean
      by_cases hq : Blank q
      · rw [if_pos hq] at hcut
        refine .inl ⟨.inr ⟨fun hblank => ?_, hq⟩, .inr ⟨m, k, hcut, hm, hk⟩⟩
        rw [laws.blank hblank] at hcut
        cases hcut
      · rw [if_neg hq] at hcut
        refine .inr ⟨?_, hp, hcut⟩
        rintro (hnil | ⟨-, hblank⟩)
        · exact hp hnil
        · exact hq hblank

/-- Whole pieces hold the messages of their lines, and what is left holds none. -/
theorem parse_whole (laws : JsonText parse) {p q : Str} (h : GoodLine parse (p ++ q))
    (hwhole : Whole p q) :
    [p, q].filterMap parse = [p ++ q].filterMap parse := by
  rcases hwhole with rfl | ⟨-, hq⟩
  · rw [List.filterMap_cons_none (laws.blank blank_nil), List.nil_append]
  · have hnone : [q].filterMap parse = [] := by
      rw [List.filterMap_cons_none (laws.blank hq), List.filterMap_nil]
    have hsame : parse (p ++ q) = parse p := laws.blank_right p hq
    cases hp : parse p with
    | none =>
        rw [List.filterMap_cons_none hp, hnone, List.filterMap_cons_none (hsame.trans hp),
          List.filterMap_nil]
    | some m =>
        rw [List.filterMap_cons_some hp, hnone, List.filterMap_cons_some (hsame.trans hp),
          List.filterMap_nil]

end

end DogeConnect
