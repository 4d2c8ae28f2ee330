/-
The handshake and the reads it happens to make.

The receive loop is indifferent to how the connection cuts the pool's lines.
The handshake is not: its first read is parsed as one JSON value, and its
second is cut at newlines with the last piece parsed as if it were a line.  So
it works just when the first read is the first line and the second ends where a
line does, up to blanks.

    authorizeLines_pieces   how the loop over the second response ends, by the
                            first piece that is not whole or refuses
    pieces_of_lines         the messages in the pieces and in what is left
    handshake_iff           the handshake comes out right just on such reads
-/
import DogeConnect.PoolStream

namespace DogeConnect

section
variable {parse : Str → Option Json}

/-! ## The lines of the second response -/

/-- A line that lets the loop go on. -/
def Passes (parse : Str → Option Json) (line : Str) : Prop :=
  line = [] ∨ ∃ m k, parse line = some m ∧ IsMessage m k ∧ k ≠ .authorizeRefused

/-- A refused authorization. -/
def Refuses (parse : Str → Option Json) (line : Str) : Prop :=
  ∃ m, parse line = some m ∧ IsMessage m .authorizeRefused

/-- The notifications among lines. -/
def notifications (parse : Str → Option Json) (lines : List Str) : List Json :=
  (lines.filterMap parse).filter isNotification

theorem authorizeLines_append (laws : JsonText parse) : ∀ {pre : List Str} (post : List Str)
    (pushed : List Json), (∀ line ∈ pre, Passes parse line) →
    authorizeLines parse (pre ++ post) pushed
      = authorizeLines parse post (pushed ++ notifications parse pre)
  | [], post, pushed, _ => by simp [notifications]
  | line :: pre, post, pushed, h => by
      have ih := fun acc => authorizeLines_append laws post acc
        fun l hl => h l (List.mem_cons_of_mem _ hl)
      rw [List.cons_append, authorizeLines]
      rcases h line List.mem_cons_self with rfl | ⟨m, k, hm, hk, hpass⟩
      · rw [if_pos rfl, ih, notifications, notifications,
          List.filterMap_cons_none (laws.blank blank_nil)]
      · have hne : line ≠ [] := by
          rintro rfl
          rw [laws.blank blank_nil] at hm
          cases hm
        have hnotes : notifications parse (line :: pre)
            = (if k = .notification then [m] else []) ++ notifications parse pre := by
          rw [notifications, List.filterMap_cons_some hm, List.filter_cons,
            isNotification_message hk]
          by_cases hkind : k = .notification
          · simp [hkind, notifications]
          · simp [hkind, notifications]
        rw [if_neg hne, hm, hnotes]
        simp only [readAuthorizeLine_message hk]
        cases k with
        | authorizeRefused => exact absurd rfl hpass
        | notification => simp [PoolMessage.asAuthorize, ih]
        | _ => simp [PoolMessage.asAuthorize, ih]

theorem authorizeLines_refuses {line : Str} (laws : JsonText parse) (h : Refuses parse line)
    (post : List Str) (pushed : List Json) :
    authorizeLines parse (line :: post) pushed = (.ok false, pushed) := by
  obtain ⟨m, hm, hk⟩ := h
  have hne : line ≠ [] := by
    rintro rfl
    rw [laws.blank blank_nil] at hm
    cases hm
  rw [authorizeLines, if_neg hne, hm]
  simp only [readAuthorizeLine_message hk, PoolMessage.asAuthorize]

theorem authorizeLines_throws {line : Str} (hne : line ≠ []) (h : parse line = none)
    (post : List Str) (pushed : List Json) :
    authorizeLines parse (line :: post) pushed = (.error .parseError, pushed) := by
  rw [authorizeLines, if_neg hne, h]

theorem IsMessage.refused_unique {m : Json} {k : PoolMessage} (h : IsMessage m k)
    (hrefused : IsMessage m .authorizeRefused) : k = .authorizeRefused := by
  have hread := (readAuthorizeLine_message h).symm.trans (readAuthorizeLine_message hrefused)
  cases k with
  | authorizeRefused => rfl
  | _ => cases hread

/-- A refused authorization stands in the read, whole, behind whole pieces. -/
def RefusalRead (parse : Str → Option Json) (ps : List (Str × Str)) : Prop :=
  ∃ pre x post, ps = pre ++ x :: post ∧ (∀ y ∈ pre, Whole y.1 y.2) ∧
    x.1 ≠ [] ∧ Whole x.1 x.2 ∧ Refuses parse (x.1 ++ x.2)

theorem scan (laws : JsonText parse) : ∀ {ps : List (Str × Str)},
    (∀ x ∈ ps, GoodLine parse (x.1 ++ x.2)) →
    (∀ x ∈ ps, Whole x.1 x.2 ∧ Passes parse x.1) ∨
    ∃ pre x post, ps = pre ++ x :: post ∧ (∀ y ∈ pre, Whole y.1 y.2 ∧ Passes parse y.1) ∧
      (x.1 ≠ [] ∧ Whole x.1 x.2 ∧ Refuses parse x.1 ∧ Refuses parse (x.1 ++ x.2) ∨
        ¬ Whole x.1 x.2 ∧ x.1 ≠ [] ∧ parse x.1 = none)
  | [], _ => .inl fun _ hx => absurd hx List.not_mem_nil
  | x :: ps, h => by
      rcases parse_piece laws (h x List.mem_cons_self) with ⟨hwhole, hmessage⟩ | hbad
      · by_cases hpass : Passes parse x.1
        · rcases scan laws fun y hy => h y (List.mem_cons_of_mem _ hy) with
            hall | ⟨pre, y, post, rfl, hpre, hy⟩
          · left
            intro y hy
            rcases List.mem_cons.mp hy with rfl | hy
            · exact ⟨hwhole, hpass⟩
            · exact hall y hy
          · refine .inr ⟨x :: pre, y, post, rfl, ?_, hy⟩
            intro z hz
            rcases List.mem_cons.mp hz with rfl | hz
            · exact ⟨hwhole, hpass⟩
            · exact hpre z hz
        · right
          rcases hmessage with hnil | ⟨m, k, hm, hm', hk⟩
          · exact absurd (.inl hnil) hpass
          · have hrefused : k = .authorizeRefused := by
              by_contra hne
              exact hpass (.inr ⟨m, k, hm, hk, hne⟩)
            subst hrefused
            refine ⟨[], x, ps, rfl, fun _ hy => absurd hy List.not_mem_nil, .inl ⟨?_, hwhole,
              ⟨m, hm, hk⟩, ⟨m, hm', hk⟩⟩⟩
            intro hnil
            exact hpass (.inl hnil)
      · exact .inr ⟨[], x, ps, rfl, fun _ hy => absurd hy List.not_mem_nil, .inr hbad⟩

theorem authorizeLines_pieces (laws : JsonText parse) {ps : List (Str × Str)}
    (h : ∀ x ∈ ps, GoodLine parse (x.1 ++ x.2)) :
    (authorizeLines parse (ps.map Prod.fst) [] = (.ok true, notifications parse (ps.map Prod.fst)) ∧
      (∀ x ∈ ps, Whole x.1 x.2) ∧ ¬ RefusalRead parse ps) ∨
    ((∃ pushed, authorizeLines parse (ps.map Prod.fst) [] = (.ok false, pushed)) ∧
      RefusalRead parse ps) ∨
    ((∃ pushed, authorizeLines parse (ps.map Prod.fst) [] = (.error .parseError, pushed)) ∧
      (¬ ∀ x ∈ ps, Whole x.1 x.2) ∧ ¬ RefusalRead parse ps) := by
  have hpasses : ∀ {qs : List (Str × Str)}, (∀ y ∈ qs, Whole y.1 y.2 ∧ Passes parse y.1) →
      ∀ line ∈ qs.map Prod.fst, Passes parse line := by
    intro qs hqs line hline
    obtain ⟨y, hy, rfl⟩ := List.mem_map.mp hline
    exact (hqs y hy).2
  have hends : ∀ {pre post : List (Str × Str)} {x : Str × Str},
      (∀ y ∈ pre, Whole y.1 y.2 ∧ Passes parse y.1) →
      authorizeLines parse ((pre ++ x :: post).map Prod.fst) []
        = authorizeLines parse (x.1 :: post.map Prod.fst) (notifications parse (pre.map Prod.fst)) := by
    intro pre post x hpre
    rw [List.map_append, authorizeLines_append laws _ _ (hpasses hpre), List.nil_append,
      List.map_cons]
  -- a refusal among whole pieces is reached
  have hreached : RefusalRead parse ps →
      ∃ pushed, authorizeLines parse (ps.map Prod.fst) [] = (.ok false, pushed) := by
    rintro ⟨pre, x, post, rfl, hwhole, hne, hx, m, hm, hk⟩
    have hrefuses : Refuses parse x.1 := by
      have hgood := h x (List.mem_append_right _ List.mem_cons_self)
      rcases parse_piece laws hgood with ⟨-, hnil | ⟨m', k', hpiece, hline, -⟩⟩ | ⟨hnot, -⟩
      · exact absurd hnil hne
      · rw [hm] at hline
        cases hline
        exact ⟨m, hpiece, hk⟩
      · exact absurd hx hnot
    rcases scan laws fun y hy => h y (List.mem_append_left _ hy) with
      hpre | ⟨pre', y, post', rfl, hpre', hy⟩
    · exact ⟨_, (hends hpre).trans (authorizeLines_refuses laws hrefuses _ _)⟩
    · rcases hy with ⟨-, -, hearlier, -⟩ | ⟨hnot, -⟩
      · rw [List.append_assoc, List.cons_append, hends hpre']
        exact ⟨_, authorizeLines_refuses laws hearlier _ _⟩
      · exact absurd (hwhole y (List.mem_append_right _ List.mem_cons_self)) hnot
  rcases scan laws h with hall | ⟨pre, x, post, hps, hpre, hx⟩
  · have hrun : authorizeLines parse (ps.map Prod.fst) []
        = (.ok true, notifications parse (ps.map Prod.fst)) := by
      have happend := authorizeLines_append laws [] [] (hpasses hall)
      rw [List.append_nil] at happend
      exact happend
    refine .inl ⟨hrun, fun x hx => (hall x hx).1, fun hrefusal => ?_⟩
    obtain ⟨pushed, hfalse⟩ := hreached hrefusal
    rw [hrun] at hfalse
    cases hfalse
  · rcases hx with ⟨hne, hwhole, -, hrefuses⟩ | ⟨hnot, hne, hbad⟩
    · have hrefusal : RefusalRead parse ps :=
        ⟨pre, x, post, hps, fun y hy => (hpre y hy).1, hne, hwhole, hrefuses⟩
      exact .inr (.inl ⟨hreached hrefusal, hrefusal⟩)
    · have hrun : authorizeLines parse (ps.map Prod.fst) []
          = (.error .parseError, notifications parse (pre.map Prod.fst)) := by
        rw [hps, hends hpre]
        exact authorizeLines_throws hne hbad _ _
      refine .inr (.inr ⟨⟨_, hrun⟩, fun hall => ?_, fun hrefusal => ?_⟩)
      · exact hnot (hall x (hps ▸ List.mem_append_right _ List.mem_cons_self))
      · obtain ⟨pushed, hfalse⟩ := hreached hrefusal
        rw [hrun] at hfalse
        cases hfalse

/-! ## Pieces of the stream -/

theorem cutLines_wire : ∀ {lines : List Str}, (∀ line ∈ lines, '\n' ∉ line) →
    cutLines (wire lines) = (lines, [])
  | [], _ => rfl
  | line :: lines, h => by
      rw [wire_cons, cutLines_append_newline (h line List.mem_cons_self),
        cutLines_wire fun l hl => h l (List.mem_cons_of_mem _ hl)]

theorem notifications_append (xs ys : List Str) :
    notifications parse (xs ++ ys) = notifications parse xs ++ notifications parse ys := by
  simp [notifications]

theorem notifications_cons (x : Str) (xs : List Str) :
    notifications parse (x :: xs) = notifications parse [x] ++ notifications parse xs :=
  notifications_append [x] xs

theorem flatMap_receiveLine (laws : JsonText parse) (lines : List Str) :
    lines.flatMap (receiveLine parse) = lines.filterMap parse := by
  induction lines with
  | nil => rfl
  | cons line lines ih =>
      rw [List.flatMap_cons, ih, receiveLine]
      split
      next hnil => rw [hnil, List.filterMap_cons_none (laws.blank blank_nil), List.nil_append]
      next =>
        cases hparse : parse line with
        | none => rw [List.filterMap_cons_none hparse]; rfl
        | some m => rw [List.filterMap_cons_some hparse]; rfl

/-- The pieces of a read belong to the lines, and what is whole in it and what
the receive loop gets afterwards are the messages of the lines. -/
theorem pieces_of_lines (laws : JsonText parse) {lines : List Str} {read later : Str}
    (hgood : ∀ line ∈ lines, GoodLine parse line) (hsplit : read ++ later = wire lines) :
    (∀ x ∈ pieces read later, GoodLine parse (x.1 ++ x.2) ∧
      (x.1 ++ x.2 ∈ lines ∨ x.1 ++ x.2 = [])) ∧
    ((∀ x ∈ pieces read later, Whole x.1 x.2) →
      notifications parse (responseLines read) ++ notifications parse (cutLines later).1
        = notifications parse lines) := by
  have hempty : GoodLine parse [] := ⟨List.not_mem_nil, List.not_mem_nil, .inl blank_nil⟩
  have hnil : notifications parse [[]] = [] := by
    rw [notifications, List.filterMap_cons_none (laws.blank blank_nil)]
    rfl
  rcases second_read (fun line hline => (hgood line hline).newline) hsplit with
    ⟨before, p, q, after, hlines, hcut, hlater⟩ | ⟨hcut, rfl⟩
  · have hline : GoodLine parse (p ++ q) := hgood _ (by rw [hlines]; simp)
    have hq : '\n' ∉ q := fun h => hline.newline (List.mem_append_right _ h)
    have hafter : ∀ line ∈ after, '\n' ∉ line :=
      fun line h => (hgood line (by rw [hlines]; simp [h])).newline
    have htake : later.takeWhile (fun c => c ≠ '\n') = q := by
      rw [hlater, List.takeWhile_append_of_pos]
      · simp
      · intro c hc
        refine decide_eq_true ?_
        rintro rfl
        exact hq hc
    have hpieces : pieces read later = before.map (fun line => (line, [])) ++ [(p, q)] := by
      rw [pieces, hcut, htake]
    rw [hpieces]
    constructor
    · intro x hx
      rcases List.mem_append.mp hx with hx | hx
      · obtain ⟨line, hmem, rfl⟩ := List.mem_map.mp hx
        have hin : line ∈ lines := by rw [hlines]; exact List.mem_append_left _ hmem
        rw [List.append_nil]
        exact ⟨hgood line hin, .inl hin⟩
      · rw [List.mem_singleton.mp hx]
        exact ⟨hline, .inl (by rw [hlines]; simp)⟩
    · intro hwhole
      have hpq := parse_whole laws hline (hwhole (p, q) (by simp))
      have hpq' : notifications parse [p] ++ notifications parse [q]
          = notifications parse [p ++ q] := by
        rw [← notifications_append]
        exact congrArg (List.filter isNotification) hpq
      have hread : responseLines read = before ++ [p] := by rw [responseLines, hcut]
      have hloop : (cutLines later).1 = q :: after := by
        rw [hlater, cutLines_append_newline hq, cutLines_wire hafter]
      rw [hread, hloop, hlines, notifications_append, notifications_append,
        notifications_cons q, notifications_cons (p ++ q), ← hpq']
      simp only [List.append_assoc]
  · have hpieces : pieces read [] = lines.map (fun line => (line, [])) ++ [([], [])] := by
      rw [pieces, hcut]
      rfl
    rw [hpieces]
    constructor
    · intro x hx
      rcases List.mem_append.mp hx with hx | hx
      · obtain ⟨line, hmem, rfl⟩ := List.mem_map.mp hx
        rw [List.append_nil]
        exact ⟨hgood line hmem, .inl hmem⟩
      · rw [List.mem_singleton.mp hx]
        exact ⟨hempty, .inr rfl⟩
    · intro hwhole
      have hread : responseLines read = lines ++ [[]] := by rw [responseLines, hcut]
      rw [hread, notifications_append, hnil, List.append_nil]
      exact List.append_nil _

/-! ## The handshake -/

/-- The id 1 response, with what it grants. -/
def PoolMessage.subscribeReply? : PoolMessage → Option (Option (Str × Nat))
  | .subscribed extraNonce1 size => some (some (extraNonce1, size))
  | .subscribeRefused => some none
  | _ => none

/-- The id 2 response. -/
def PoolMessage.authorizeReply? : PoolMessage → Option Bool
  | .authorized => some true
  | .authorizeRefused => some false
  | _ => none

/-- What the pool sends: the two responses once each, and notifications, in any
order. -/
structure PoolStream (parse : Str → Option Json) where
  lines : List (PoolLine parse)
  id1 : Option (Str × Nat)
  id2 : Bool
  one_id1 : lines.filterMap (fun l => l.kind.subscribeReply?) = [id1]
  one_id2 : lines.filterMap (fun l => l.kind.authorizeReply?) = [id2]

namespace PoolStream

def bytes (stream : PoolStream parse) : Str := wire (stream.lines.map PoolLine.text)

def notes (stream : PoolStream parse) : List Json :=
  (stream.lines.map PoolLine.value).filter isNotification

end PoolStream

/-- What a handshake on given reads should come to, whatever `extraNonce1` was. -/
structure HandshakeOk (stream : PoolStream parse) (reads : List Str) (result : InitResult) :
    Prop where
  returns : ∃ b, result.outcome = .ok b
  value : result.outcome = .ok true ↔ (∃ s, stream.id1 = some (s, 8)) ∧ stream.id2 = true
  nonce : ∀ s n, stream.id1 = some (s, n) → result.extraNonce1 = hexToBytes s .BigEndian
  /-- With the loop that follows, every notification once and in order. -/
  pushed : result.outcome = .ok true →
    (result.pushed ++ (receiveAll parse (reads.drop 2)).pushed).filter isNotification
      = stream.notes

/-- The reads end where lines do, as far as the handshake depends on it. -/
structure GoodReads (stream : PoolStream parse) (reads : List Str) : Prop where
  first : ∃ l, stream.lines.head? = some l ∧ FirstRead l.text (reads.headD []) ∧
    ∀ s n, stream.id1 = some (s, n) → l.kind = .subscribed s n
  /-- A size is read into 32 bits. -/
  second : ∀ s n, stream.id1 = some (s, n) → n % 2 ^ 32 = 8 →
    if n = 8 ∧ stream.id2 = true then
      ∀ x ∈ pieces (reads.tail.headD []) (reads.drop 2).flatten, Whole x.1 x.2
    else RefusalRead parse (pieces (reads.tail.headD []) (reads.drop 2).flatten)

/-! ### The first read decides -/

theorem init_throws {read : Str} (hne : read ≠ []) (h : parse read = none) (old : List UInt8)
    (second : Str) : (initStratumProtocol parse old read second).outcome = .error .parseError := by
  rw [initStratumProtocol, if_neg hne, h]

theorem init_rejected {read : Str} {m : Json} {k : PoolMessage} (hne : read ≠ [])
    (h : parse read = some m) (hk : IsMessage m k) (hreply : k.asSubscribe = .rejected)
    (old : List UInt8) (second : Str) :
    initStratumProtocol parse old read second = ⟨.ok false, old, []⟩ := by
  rw [initStratumProtocol, if_neg hne, h]
  simp only [readSubscribeResponse_message hk, hreply]

theorem init_subscribed {read : Str} {m : Json} {s : Str} {n : Nat} (hne : read ≠ [])
    (h : parse read = some m) (hk : IsMessage m (.subscribed s n)) (old : List UInt8)
    (second : Str) :
    initStratumProtocol parse old read second =
      if n % 2 ^ 32 = 8 then
        ⟨(authorizeLines parse (responseLines second) []).1, hexToBytes s .BigEndian,
          (authorizeLines parse (responseLines second) []).2⟩
      else ⟨.ok false, hexToBytes s .BigEndian, []⟩ := by
  have hsize : UInt32.ofNat n = 8 ↔ n % 2 ^ 32 = 8 := by
    rw [← UInt32.toNat_inj, UInt32.toNat_ofNat']
    rfl
  rw [initStratumProtocol, if_neg hne, h]
  simp only [readSubscribeResponse_message hk, PoolMessage.asSubscribe, ne_eq, hsize]
  split_ifs <;> rfl

/-! ### The stream and the reads -/

theorem PoolStream.lines_cons (stream : PoolStream parse) :
    ∃ l ls, stream.lines = l :: ls ∧ ls ≠ [] := by
  have h1 := stream.one_id1
  have h2 := stream.one_id2
  cases hlines : stream.lines with
  | nil => rw [hlines] at h1; cases h1
  | cons l ls =>
      refine ⟨l, ls, rfl, ?_⟩
      rintro rfl
      rw [hlines] at h1 h2
      cases hkind : l.kind <;>
        simp [hkind, PoolMessage.subscribeReply?, PoolMessage.authorizeReply?] at h1 h2

/-- No line refuses the authorization of a stream whose id 2 response is a
success. -/
theorem PoolStream.not_refuses (stream : PoolStream parse) (h : stream.id2 = true)
    {l : PoolLine parse} (hl : l ∈ stream.lines) : l.kind ≠ .authorizeRefused := by
  intro hkind
  have hmem : false ∈ stream.lines.filterMap fun l => l.kind.authorizeReply? :=
    List.mem_filterMap.mpr ⟨l, hl, by rw [hkind]; rfl⟩
  rw [stream.one_id2, h, List.mem_singleton] at hmem
  cases hmem

theorem reads_split {reads : List Str} {bytes : Str} (hreads : reads.flatten = bytes)
    (hne : [] ∉ reads) (hbytes : bytes ≠ []) :
    reads.headD [] ≠ [] ∧
      reads.headD [] ++ (reads.tail.headD [] ++ (reads.drop 2).flatten) = bytes := by
  cases reads with
  | nil => exact absurd hreads.symm hbytes
  | cons read reads =>
      refine ⟨fun h => hne (by rw [← h]; exact List.mem_cons_self), ?_⟩
      rw [← hreads]
      cases reads with
      | nil => simp
      | cons second reads => simp

theorem refused_of_refusalRead {lines : List Str} {ls : List (PoolLine parse)}
    (laws : JsonText parse) (hvalues : lines.filterMap parse = ls.map PoolLine.value)
    {ps : List (Str × Str)} (hps : ∀ x ∈ ps, x.1 ++ x.2 ∈ lines ∨ x.1 ++ x.2 = [])
    (h : RefusalRead parse ps) : ∃ l ∈ ls, l.kind = .authorizeRefused := by
  obtain ⟨pre, x, post, rfl, -, -, -, m, hm, hk⟩ := h
  rcases hps x (List.mem_append_right _ List.mem_cons_self) with hmem | hnil
  · have hvalue : m ∈ ls.map PoolLine.value := hvalues ▸ List.mem_filterMap.mpr ⟨_, hmem, hm⟩
    obtain ⟨l, hl, rfl⟩ := List.mem_map.mp hvalue
    exact ⟨l, hl, l.isMessage.refused_unique hk⟩
  · rw [hnil, laws.blank blank_nil] at hm
    cases hm

/-- The second read, once the pool's first response is the one awaited. -/
theorem second_iff (laws : JsonText parse) (stream : PoolStream parse) {l : PoolLine parse}
    {ls : List (PoolLine parse)} (hlines : stream.lines = l :: ls) {s : Str} {n : Nat}
    (hkind : l.kind = .subscribed s n) (hid1 : stream.id1 = some (s, n)) {reads : List Str}
    {rest : List Str} (hlater : reads.tail.headD [] ++ (reads.drop 2).flatten = wire rest)
    (hgood : ∀ line ∈ rest, GoodLine parse line)
    (hvalues : rest.filterMap parse = ls.map PoolLine.value) :
    HandshakeOk stream reads
      ⟨(authorizeLines parse (responseLines (reads.tail.headD [])) []).1, hexToBytes s .BigEndian,
        (authorizeLines parse (responseLines (reads.tail.headD [])) []).2⟩ ↔
    if n = 8 ∧ stream.id2 = true then
      ∀ x ∈ pieces (reads.tail.headD []) (reads.drop 2).flatten, Whole x.1 x.2
    else RefusalRead parse (pieces (reads.tail.headD []) (reads.drop 2).flatten) := by
  obtain ⟨hps, hnotes⟩ := pieces_of_lines laws hgood hlater
  have hrun := authorizeLines_pieces laws fun x hx => (hps x hx).1
  rw [pieces_fst] at hrun
  have hsize : ∀ {t : Str}, stream.id1 = some (t, 8) → n = 8 := by
    intro t ht
    rw [hid1] at ht
    cases ht
    rfl
  have hnonce : ∀ t k, stream.id1 = some (t, k) →
      hexToBytes s .BigEndian = hexToBytes t .BigEndian := by
    intro t k ht
    rw [hid1] at ht
    cases ht
    rfl
  by_cases hgoal : n = 8 ∧ stream.id2 = true
  · rw [if_pos hgoal]
    have hid8 : stream.id1 = some (s, 8) := hid1.trans (by rw [hgoal.1])
    rcases hrun with ⟨hrun, hwhole, -⟩ | ⟨-, hrefusal⟩ | ⟨⟨pushed, hrun⟩, hnot, -⟩
    · refine ⟨fun _ => hwhole, fun _ => ?_⟩
      rw [hrun]
      refine ⟨⟨true, rfl⟩, ⟨fun _ => ⟨⟨s, hid8⟩, hgoal.2⟩, fun _ => rfl⟩, hnonce, fun _ => ?_⟩
      have hl : isNotification l.value = false := by
        rw [isNotification_message l.isMessage, hkind]
        rfl
      have hall : stream.notes = notifications parse rest := by
        rw [PoolStream.notes, hlines, List.map_cons, List.filter_cons_of_neg (by simp [hl]),
          notifications, hvalues]
      rw [hall, ← hnotes hwhole, receiveAll_eq, flatMap_receiveLine laws, List.filter_append]
      simp only [notifications, List.filter_filter, Bool.and_self]
    · obtain ⟨l', hl', hrefused⟩ :=
        refused_of_refusalRead laws hvalues (fun x hx => (hps x hx).2) hrefusal
      have hmem : l' ∈ stream.lines := by
        rw [hlines]
        exact List.mem_cons_of_mem _ hl'
      exact absurd hrefused (stream.not_refuses hgoal.2 hmem)
    · refine ⟨fun h => ?_, fun h => absurd h hnot⟩
      obtain ⟨b, hb⟩ := h.returns
      rw [hrun] at hb
      cases hb
  · rw [if_neg hgoal]
    rcases hrun with ⟨hrun, -, hnot⟩ | ⟨⟨pushed, hrun⟩, hrefusal⟩ | ⟨⟨pushed, hrun⟩, -, hnot⟩
    · refine ⟨fun h => ?_, fun h => absurd h hnot⟩
      rw [hrun] at h
      obtain ⟨⟨t, ht⟩, hid2⟩ := h.value.mp rfl
      exact absurd ⟨hsize ht, hid2⟩ hgoal
    · refine ⟨fun _ => hrefusal, fun _ => ?_⟩
      rw [hrun]
      refine ⟨⟨false, rfl⟩, ⟨nofun, ?_⟩, hnonce, nofun⟩
      rintro ⟨⟨t, ht⟩, hid2⟩
      exact absurd ⟨hsize ht, hid2⟩ hgoal
    · refine ⟨fun h => ?_, fun h => absurd h hnot⟩
      obtain ⟨b, hb⟩ := h.returns
      rw [hrun] at hb
      cases hb

/-- The first line is the response awaited and the first read is that line: what
is asked of the second read. -/
theorem goodReads_iff_second (stream : PoolStream parse) {l : PoolLine parse} {s : Str} {n : Nat}
    {reads : List Str} (hhead : stream.lines.head? = some l)
    (hfirst : FirstRead l.text (reads.headD [])) (hkind : l.kind = .subscribed s n)
    (hid1 : stream.id1 = some (s, n)) :
    GoodReads stream reads ↔ (n % 2 ^ 32 = 8 →
      if n = 8 ∧ stream.id2 = true then
        ∀ x ∈ pieces (reads.tail.headD []) (reads.drop 2).flatten, Whole x.1 x.2
      else RefusalRead parse (pieces (reads.tail.headD []) (reads.drop 2).flatten)) := by
  constructor
  · intro h
    exact h.second s n hid1
  · intro h
    refine ⟨⟨l, hhead, hfirst, fun t k ht => ?_⟩, fun t k ht => ?_⟩
    · rw [hid1] at ht
      cases ht
      exact hkind
    · rw [hid1] at ht
      cases ht
      exact h

theorem handshakeOk_wrongSize (stream : PoolStream parse) {s : Str} {n : Nat} {reads : List Str}
    (hid1 : stream.id1 = some (s, n)) (hsize : n % 2 ^ 32 ≠ 8) :
    HandshakeOk stream reads ⟨.ok false, hexToBytes s .BigEndian, []⟩ := by
  refine ⟨⟨false, rfl⟩, ⟨nofun, ?_⟩, ?_, nofun⟩
  · rintro ⟨⟨t, ht⟩, -⟩
    rw [hid1] at ht
    cases ht
    exact absurd rfl hsize
  · intro t k ht
    rw [hid1] at ht
    cases ht
    rfl

/-- The first read is the first line, which is not the response awaited. -/
theorem rejected_iff (stream : PoolStream parse) {l : PoolLine parse} {reads : List Str}
    (hhead : stream.lines.head? = some l) (hfirst : FirstRead l.text (reads.headD []))
    (hkind : ¬ ∃ s n, l.kind = .subscribed s n) :
    (∀ old, HandshakeOk stream reads ⟨.ok false, old, []⟩) ↔ GoodReads stream reads := by
  cases hid1 : stream.id1 with
  | none =>
      refine ⟨fun _ => ⟨⟨l, hhead, hfirst, ?_⟩, ?_⟩, fun _ old => ?_⟩
      · rw [hid1]
        nofun
      · rw [hid1]
        nofun
      · refine ⟨⟨false, rfl⟩, ⟨nofun, ?_⟩, ?_, nofun⟩
        · rw [hid1]
          rintro ⟨⟨t, ht⟩, -⟩
          cases ht
        · rw [hid1]
          nofun
  | some reply =>
      obtain ⟨s, n⟩ := reply
      constructor
      · intro h
        -- any old first nonce stays, also one that is too long
        have hnonce := (h (0 :: hexToBytes s .BigEndian)).nonce s n hid1
        exact absurd (congrArg List.length hnonce) (by simp)
      · intro h
        obtain ⟨l', hl', -, horder⟩ := h.first
        rw [hhead] at hl'
        cases hl'
        exact absurd ⟨s, n, horder s n hid1⟩ hkind

/-- **When the handshake does not depend on the reads.** -/
theorem handshake_iff (laws : JsonText parse) (stream : PoolStream parse) {reads : List Str}
    (hreads : reads.flatten = stream.bytes) (hne : [] ∉ reads) :
    (∀ old, HandshakeOk stream reads
      (initStratumProtocol parse old (reads.headD []) (reads.tail.headD []))) ↔
    GoodReads stream reads := by
  obtain ⟨l, ls, hlines, hls⟩ := stream.lines_cons
  have hbytes : stream.bytes = l.text ++ '\n' :: wire (ls.map PoolLine.text) := by
    rw [PoolStream.bytes, hlines, List.map_cons, wire_cons]
  obtain ⟨hread, hsplit⟩ := reads_split hreads hne (by rw [hbytes]; simp)
  have hclean : '\x00' ∉ wire (ls.map PoolLine.text) :=
    wire_clean fun line hline => (good_texts line hline).clean
  have hhead : stream.lines.head? = some l := by rw [hlines]; rfl
  rw [hbytes] at hsplit
  rcases first_read laws l hclean hsplit with ⟨hfirst, hparse⟩ | ⟨hnot, hparse⟩
  · by_cases hkind : ∃ s n, l.kind = .subscribed s n
    · obtain ⟨s, n, hkind⟩ := hkind
      have hid1 : stream.id1 = some (s, n) := by
        have h1 := stream.one_id1
        rw [hlines, List.filterMap_cons_some (b := some (s, n)) (by rw [hkind]; rfl)] at h1
        exact (List.cons.inj h1).1.symm
      have hrun := fun old => init_subscribed hread hparse (hkind ▸ l.isMessage) old
        (reads.tail.headD [])
      rw [goodReads_iff_second stream hhead hfirst hkind hid1]
      by_cases hsize : n % 2 ^ 32 = 8
      · obtain ⟨rest, hlater, hlinesgood, hvalues⟩ := after_first_read laws l hsplit hfirst hls
        have hsecond := second_iff laws stream hlines hkind hid1 hlater hlinesgood hvalues
        simp only [hrun, if_pos hsize, forall_const, hsecond]
        exact ⟨fun h _ => h, fun h => h hsize⟩
      · refine ⟨fun _ h => absurd h hsize, fun _ old => ?_⟩
        rw [hrun, if_neg hsize]
        exact handshakeOk_wrongSize stream hid1 hsize
    · -- the first message is not the response awaited
      have hreply : l.kind.asSubscribe = .rejected := by
        cases hk : l.kind with
        | subscribed s n => exact absurd ⟨s, n, hk⟩ hkind
        | _ => rfl
      have hrun := fun old => init_rejected hread hparse l.isMessage hreply old
        (reads.tail.headD [])
      simp only [hrun]
      exact rejected_iff stream hhead hfirst hkind
  · -- the first read throws
    constructor
    · intro h
      obtain ⟨b, hb⟩ := (h []).returns
      rw [init_throws hread hparse] at hb
      cases hb
    · intro h
      obtain ⟨l', hl', hfirst, -⟩ := h.first
      rw [hhead] at hl'
      cases hl'
      exact absurd hfirst hnot

end

/-! ## A pool -/

def subscribeText : Str :=
  "\x7b\"id\":1,\"result\":[[],\"08000002\",8],\"error\":null\x7d".toList

def difficultyText : Str :=
  "\x7b\"id\":null,\"method\":\"mining.set_difficulty\",\"params\":[8]\x7d".toList

def authorizeText : Str := "\x7b\"id\":2,\"result\":true,\"error\":null\x7d".toList

def subscribeValue : Json :=
  .object [("id".toList, .unsigned 1),
    ("result".toList, .array [.array [], .string "08000002".toList, .unsigned 8]),
    ("error".toList, .null)]

def difficultyValue : Json := stratumNotification "mining.set_difficulty".toList [.unsigned 8]

def authorizeValue : Json :=
  .object [("id".toList, .unsigned 2), ("result".toList, .boolean true), ("error".toList, .null)]

def poolParse : Str → Option Json :=
  tableParse [(subscribeText, subscribeValue), (difficultyText, difficultyValue),
    (authorizeText, authorizeValue)]

theorem poolParse_laws : JsonText poolParse :=
  tableParse_laws ⟨by decide, by decide⟩

theorem subscribeText_line : '\n' ∉ subscribeText ∧ '\x00' ∉ subscribeText ∧
    poolParse subscribeText = some subscribeValue := ⟨by decide, by decide, rfl⟩

theorem difficultyText_line : '\n' ∉ difficultyText ∧ '\x00' ∉ difficultyText ∧
    poolParse difficultyText = some difficultyValue := ⟨by decide, by decide, rfl⟩

theorem authorizeText_line : '\n' ∉ authorizeText ∧ '\x00' ∉ authorizeText ∧
    poolParse authorizeText = some authorizeValue := ⟨by decide, by decide, rfl⟩

theorem subscribeValue_message : IsMessage subscribeValue (.subscribed "08000002".toList 8) :=
  .subscribed rfl rfl rfl rfl rfl

theorem difficultyValue_message : IsMessage difficultyValue .notification := .notification rfl

theorem authorizeValue_message : IsMessage authorizeValue .authorized := .authorized rfl rfl rfl

def poolLines : List (PoolLine poolParse) :=
  [⟨subscribeText, subscribeValue, _, subscribeText_line.1, subscribeText_line.2.1,
      subscribeText_line.2.2, subscribeValue_message⟩,
    ⟨difficultyText, difficultyValue, _, difficultyText_line.1, difficultyText_line.2.1,
      difficultyText_line.2.2, difficultyValue_message⟩,
    ⟨authorizeText, authorizeValue, _, authorizeText_line.1, authorizeText_line.2.1,
      authorizeText_line.2.2, authorizeValue_message⟩]

theorem poolLines_id1 :
    poolLines.filterMap (fun l => l.kind.subscribeReply?) = [some ("08000002".toList, 8)] := rfl

theorem poolLines_id2 : poolLines.filterMap (fun l => l.kind.authorizeReply?) = [true] := rfl

/-- The pool accepts both requests. -/
def acceptingPool : PoolStream poolParse := ⟨poolLines, _, _, poolLines_id1, poolLines_id2⟩

/-- A read for each line. -/
theorem handshake_iff_lineReads :
    GoodReads acceptingPool [wire [subscribeText], wire [difficultyText], wire [authorizeText]] ∧
    HandshakeOk acceptingPool [wire [subscribeText], wire [difficultyText], wire [authorizeText]]
      (initStratumProtocol poolParse [] (wire [subscribeText]) (wire [difficultyText])) := by
  have hgood : GoodReads acceptingPool
      [wire [subscribeText], wire [difficultyText], wire [authorizeText]] := by
    constructor
    · refine ⟨_, rfl, ⟨"\n".toList, by decide, .inr rfl⟩, fun s n h => ?_⟩
      cases h
      rfl
    · intro s n h _
      cases h
      rw [if_pos ⟨rfl, rfl⟩]
      intro x hx
      have hpieces : pieces (wire [difficultyText]) (wire [authorizeText])
          = [(difficultyText, []), ([], authorizeText)] := rfl
      rcases List.mem_cons.mp (hpieces ▸ hx) with rfl | hx
      · exact .inr ⟨by decide, rfl⟩
      · rw [List.mem_singleton.mp hx]
        exact .inl rfl
  exact ⟨hgood, (handshake_iff poolParse_laws acceptingPool rfl (by decide)).mpr hgood []⟩

/-- `set_difficulty` comes with the response: the first read does not parse. -/
theorem joinedRead_throws :
    [wire [subscribeText, difficultyText], wire [authorizeText]].flatten = acceptingPool.bytes ∧
    acceptingPool.id1 = some ("08000002".toList, 8) ∧ acceptingPool.id2 = true ∧
    (initStratumProtocol poolParse [] (wire [subscribeText, difficultyText])
      (wire [authorizeText])).outcome = .error .parseError ∧
    ¬ HandshakeOk acceptingPool [wire [subscribeText, difficultyText], wire [authorizeText]]
      (initStratumProtocol poolParse [] (wire [subscribeText, difficultyText])
        (wire [authorizeText])) := by
  refine ⟨rfl, rfl, rfl, rfl, fun h => ?_⟩
  obtain ⟨b, hb⟩ := h.returns
  cases hb

end DogeConnect
