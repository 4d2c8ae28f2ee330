/-
`PacketDeduplicator` and `BridgeRelay`: packets from the mainnet, relayed once.

The deduplicator keeps the hashes of the last packets it let through, in a set
and in a queue; the hash is taken of the bytes behind the header.

    isDuplicate_spec      a call from a state that remembers a history
    remembers_feed        every history leaves a state that remembers it
    relayed_iff           what the relay forwards
    isDuplicate_payload_iff   duplicates are packets with an equal payload

Type and size stand in the header and are not hashed: a task and a solution with
the same payload are one packet to the deduplicator.
-/
import DogeConnect.Bytes
import DogeConnect.Lib.Window

namespace DogeConnect

namespace NetBridge

/-! ## The code -/

structure PacketDeduplicator where
  seen : Finset UInt64
  /-- Oldest first. -/
  order : List UInt64
  capacity : Nat
  deriving DecidableEq

namespace PacketDeduplicator

def new (capacity : Nat) : PacketDeduplicator := ⟨∅, [], capacity⟩

/-- `BitConverter.ToInt64(sha.Slice(offset))`, as 64 bits. -/
def toInt64 (sha : ByteArr 32) (offset : Nat) : UInt64 :=
  UInt64.ofNat (leVal ((sha.toList.drop offset).take 8))

/-- The bytes that are hashed. -/
def payload (data : List UInt8) : List UInt8 := data.drop (min 8 data.length)

variable (sha256 : List UInt8 → ByteArr 32)

/-- SHA-256, XOR-folded to 64 bits. -/
def foldedHash (span : List UInt8) : UInt64 :=
  let sha := sha256 span
  toInt64 sha 0 ^^^ toInt64 sha 8 ^^^ toInt64 sha 16 ^^^ toInt64 sha 24

def computeHash (data : List UInt8) : UInt64 := foldedHash sha256 (payload data)

def isDuplicate (d : PacketDeduplicator) (rawPacket : List UInt8) : Bool × PacketDeduplicator :=
  let hash := computeHash sha256 rawPacket
  if hash ∈ d.seen then (true, d)
  else
    let (seen, order) := Window.trim d.capacity (insert hash d.seen) (d.order ++ [hash])
    (false, { d with seen, order })

end PacketDeduplicator

open PacketDeduplicator

def PacketTypeCustomMiningTask : UInt8 := 68

def PacketTypeCustomMiningSolution : UInt8 := 69

structure BridgeRelay where
  dedup : PacketDeduplicator
  packetsReceived : Nat
  duplicatesSkipped : Nat
  tasksRelayed : Nat
  solutionsRelayed : Nat
  deriving DecidableEq

/-- A packet of the stream, with its header as the client has parsed it. -/
structure PacketReceived where
  headerType : UInt8
  rawPacket : List UInt8
  deriving DecidableEq, Repr

/-- The dejavu field, bytes 4 to 7, set to zero. -/
def zeroDejavu (rawPacket : List UInt8) : List UInt8 :=
  (((rawPacket.set 4 0).set 5 0).set 6 0).set 7 0

/-- The packet that is forwarded to the connected testnet peers, if any. -/
def onMainnetPacketReceived (sha256 : List UInt8 → ByteArr 32) (b : BridgeRelay)
    (e : PacketReceived) : Option (List UInt8) × BridgeRelay :=
  let b := { b with packetsReceived := b.packetsReceived + 1 }
  if e.headerType ≠ PacketTypeCustomMiningTask ∧ e.headerType ≠ PacketTypeCustomMiningSolution then
    (none, b)
  else
    match b.dedup.isDuplicate sha256 e.rawPacket with
    | (true, dedup) => (none, { b with dedup, duplicatesSkipped := b.duplicatesSkipped + 1 })
    | (false, dedup) =>
      let b := if e.headerType = PacketTypeCustomMiningTask then
          { b with dedup, tasksRelayed := b.tasksRelayed + 1 }
        else { b with dedup, solutionsRelayed := b.solutionsRelayed + 1 }
      (some (zeroDejavu e.rawPacket), b)

/-! ## Histories -/

variable {sha256 : List UInt8 → ByteArr 32}

/-- A call, with the packets for which `false` was returned so far. -/
def feed (sha256 : List UInt8 → ByteArr 32) (s : PacketDeduplicator × List (List UInt8))
    (rawPacket : List UInt8) : PacketDeduplicator × List (List UInt8) :=
  match s.1.isDuplicate sha256 rawPacket with
  | (true, d) => (d, s.2)
  | (false, d) => (d, s.2 ++ [rawPacket])

/-- The state after a sequence of packets, and the packets that passed. -/
def feedAll (sha256 : List UInt8 → ByteArr 32) (capacity : Nat) (packets : List (List UInt8)) :
    PacketDeduplicator × List (List UInt8) :=
  packets.foldl (feed sha256) (.new capacity, [])

/-- The queue holds the hashes of the last packets that passed, no hash twice,
and the set holds the same. -/
structure Remembers (sha256 : List UInt8 → ByteArr 32) (capacity : Nat)
    (s : PacketDeduplicator × List (List UInt8)) : Prop where
  bound : s.1.capacity = capacity
  order : s.1.order = (s.2.rtake capacity).map (computeHash sha256)
  nodup : s.1.order.Nodup
  seen : s.1.seen = s.1.order.toFinset

/-- A packet is taken for a duplicate when its hash is remembered. -/
theorem isDuplicate_spec {capacity : Nat} {s : PacketDeduplicator × List (List UInt8)}
    (h : Remembers sha256 capacity s) (rawPacket : List UInt8) :
    (s.1.isDuplicate sha256 rawPacket).1 = true ↔
      ∃ p ∈ s.2.rtake capacity, computeHash sha256 p = computeHash sha256 rawPacket := by
  have hmem : computeHash sha256 rawPacket ∈ s.1.seen ↔
      ∃ p ∈ s.2.rtake capacity, computeHash sha256 p = computeHash sha256 rawPacket := by
    rw [h.seen, List.mem_toFinset, h.order, List.mem_map]
  rw [← hmem, isDuplicate]
  split
  next hseen => exact iff_of_true rfl hseen
  next hseen => exact iff_of_false nofun hseen

theorem remembers_step {capacity : Nat} {s : PacketDeduplicator × List (List UInt8)}
    (h : Remembers sha256 capacity s) (rawPacket : List UInt8) :
    Remembers sha256 capacity (feed sha256 s rawPacket) := by
  rw [feed, isDuplicate]
  by_cases hseen : computeHash sha256 rawPacket ∈ s.1.seen
  · rw [if_pos hseen]
    exact h
  · rw [if_neg hseen]
    have hnew : computeHash sha256 rawPacket ∉ s.1.order := by
      rwa [h.seen, List.mem_toFinset] at hseen
    have hnodup : (s.1.order ++ [computeHash sha256 rawPacket]).Nodup :=
      List.nodup_append.mpr ⟨h.nodup, List.nodup_singleton _, fun a ha b hb => by
        rw [List.mem_singleton] at hb
        rintro rfl
        exact hnew (hb ▸ ha)⟩
    have hset : insert (computeHash sha256 rawPacket) s.1.seen
        = (s.1.order ++ [computeHash sha256 rawPacket]).toFinset := by
      rw [List.toFinset_append, h.seen, List.toFinset_cons, List.toFinset_nil,
        Finset.union_insert, Finset.union_empty]
    rw [h.bound, hset, Window.trim_spec capacity hnodup]
    dsimp only
    refine ⟨rfl, ?_, ?_, rfl⟩
    · -- the queue was the end of the history, and one entry more is still its end
      show (s.1.order ++ [computeHash sha256 rawPacket]).rtake capacity = _
      rw [h.order, ← Window.rtake_map, ← Window.rtake_map, Window.rtake_append_rtake,
        List.map_append]
      rfl
    · exact hnodup.sublist (List.drop_sublist _ _)

theorem remembers_feed (sha256 : List UInt8 → ByteArr 32) (capacity : Nat)
    (packets : List (List UInt8)) :
    Remembers sha256 capacity (feedAll sha256 capacity packets) := by
  have hall : ∀ (packets : List (List UInt8)) (s : PacketDeduplicator × List (List UInt8)),
      Remembers sha256 capacity s → Remembers sha256 capacity (packets.foldl (feed sha256) s) := by
    intro packets
    induction packets with
    | nil => exact fun _ h => h
    | cons p ps ih => exact fun s h => ih _ (remembers_step h p)
  refine hall packets _ ⟨rfl, ?_, List.nodup_nil, rfl⟩
  rw [List.rtake_nil]
  rfl

theorem passed_subset (packets : List (List UInt8)) (s : PacketDeduplicator × List (List UInt8)) :
    ∀ p ∈ (packets.foldl (feed sha256) s).2, p ∈ s.2 ∨ p ∈ packets := by
  induction packets generalizing s with
  | nil => exact fun p hp => .inl hp
  | cons q qs ih =>
      intro p hp
      rcases ih (feed sha256 s q) p hp with hold | hlater
      · rw [feed] at hold
        split at hold
        · exact .inl hold
        · rcases List.mem_append.mp hold with hold | hq
          · exact .inl hold
          · rw [List.mem_singleton] at hq
            exact .inr (hq ▸ List.mem_cons_self)
      · exact .inr (List.mem_cons_of_mem q hlater)

/-- The relay forwards the tasks and solutions that are no duplicates, with a
zero dejavu field. -/
theorem relayed_iff (b : BridgeRelay) (e : PacketReceived) (relayPacket : List UInt8) :
    (onMainnetPacketReceived sha256 b e).1 = some relayPacket ↔
      (e.headerType = PacketTypeCustomMiningTask ∨
        e.headerType = PacketTypeCustomMiningSolution) ∧
      (b.dedup.isDuplicate sha256 e.rawPacket).1 = false ∧
      relayPacket = zeroDejavu e.rawPacket := by
  rw [onMainnetPacketReceived]
  dsimp only
  split
  next hother =>
    refine iff_of_false nofun ?_
    rintro ⟨htask | hsolution, -⟩
    · exact hother.1 htask
    · exact hother.2 hsolution
  next hdoge =>
    have htype : e.headerType = PacketTypeCustomMiningTask ∨
        e.headerType = PacketTypeCustomMiningSolution := by
      by_contra hnone
      rw [not_or] at hnone
      exact hdoge hnone
    rcases hdup : b.dedup.isDuplicate sha256 e.rawPacket with ⟨duplicate, dedup⟩
    cases duplicate with
    | true => exact iff_of_false nofun fun h => nomatch h.2.1
    | false =>
        constructor
        · intro h
          cases h
          exact ⟨htype, rfl, rfl⟩
        · rintro ⟨-, -, rfl⟩
          rfl

/-- After any packets, the next one is taken for a duplicate just when one with
the same payload is among the last that passed, as many as the capacity; set and
queue hold the same distinct hashes, never more than the capacity. -/
theorem isDuplicate_payload_iff (sha256 : List UInt8 → ByteArr 32) (capacity : Nat)
    (packets : List (List UInt8)) (rawPacket : List UInt8)
    (hash_injective : ∀ p ∈ packets,
      foldedHash sha256 (payload p) = foldedHash sha256 (payload rawPacket) →
        payload p = payload rawPacket) :
    (((feedAll sha256 capacity packets).1.isDuplicate sha256 rawPacket).1 = true ↔
      ∃ p ∈ (feedAll sha256 capacity packets).2.rtake capacity,
        payload p = payload rawPacket) ∧
    (feedAll sha256 capacity packets).1.seen
      = (feedAll sha256 capacity packets).1.order.toFinset ∧
    (feedAll sha256 capacity packets).1.order.Nodup ∧
    (feedAll sha256 capacity packets).1.order.length ≤ capacity := by
  have h := remembers_feed sha256 capacity packets
  refine ⟨?_, h.seen, h.nodup, ?_⟩
  · rw [isDuplicate_spec h rawPacket]
    constructor
    · rintro ⟨p, hp, hhash⟩
      rcases passed_subset packets _ p (Window.mem_of_mem_rtake hp) with hnone | hpacket
      · cases hnone
      · exact ⟨p, hp, hash_injective p hpacket hhash⟩
    · rintro ⟨p, hp, hpayload⟩
      exact ⟨p, hp, by rw [computeHash, computeHash, hpayload]⟩
  · rw [h.order, List.length_map, Window.length_rtake]
    exact Nat.min_le_left _ _

/-- SHA-256 of the two payloads below. -/
def sha256Of (span : List UInt8) : ByteArr 32 :=
  if span = [0] then ⟨
    [110, 52, 11, 156, 255, 179, 122, 152, 156, 165, 68, 230, 187, 120, 10, 44, 120, 144,
      29, 63, 179, 55, 56, 118, 133, 17, 163, 6, 23, 175, 160, 29], rfl⟩
  else ⟨
    [75, 245, 18, 47, 52, 69, 84, 197, 59, 222, 46, 187, 140, 210, 183, 227, 209, 96, 10,
      214, 49, 195, 133, 165, 215, 204, 226, 60, 119, 133, 69, 154], rfl⟩

/-- A packet of 9 bytes. -/
def shortPacket (type dejavu body : UInt8) : List UInt8 := [9, 0, 0, type, dejavu, 0, 0, 0, body]

/-- Two tasks, then the first one again with another dejavu. -/
theorem shortPacket_duplicate :
    ((feedAll sha256Of 2 [shortPacket 68 1 0, shortPacket 68 2 1]).1.isDuplicate sha256Of
      (shortPacket 68 3 0)).1 = true :=
  (isDuplicate_payload_iff sha256Of 2 [shortPacket 68 1 0, shortPacket 68 2 1] (shortPacket 68 3 0)
    (by decide +kernel)).1.mpr ⟨shortPacket 68 1 0, by decide +kernel, rfl⟩

/-- Every byte but those of the dejavu field. -/
def sameButDejavu (p q : List UInt8) : Prop := p.take 4 = q.take 4 ∧ p.drop 8 = q.drop 8

/-- A solution with the payload of a task is taken for its duplicate. -/
theorem isDuplicate_other_type :
    ¬ ∀ (sha256 : List UInt8 → ByteArr 32) (capacity : Nat) (packets : List (List UInt8))
      (rawPacket : List UInt8), 1 ≤ capacity →
      (∀ p ∈ packets, foldedHash sha256 (payload p) = foldedHash sha256 (payload rawPacket) →
        payload p = payload rawPacket) →
      (((feedAll sha256 capacity packets).1.isDuplicate sha256 rawPacket).1 = true ↔
        ∃ p ∈ (feedAll sha256 capacity packets).2.rtake capacity, sameButDejavu p rawPacket) := by
  intro hall
  have hiff := hall (fun _ => default) 1 [shortPacket 68 0 0] (shortPacket 69 0 0) (by decide)
    (fun p hp _ => by rw [List.mem_singleton] at hp; rw [hp]; rfl)
  obtain ⟨p, hp, hsame⟩ := hiff.mp (by decide +kernel)
  have hpacket : p = shortPacket 68 0 0 := by
    rcases passed_subset _ _ p (Window.mem_of_mem_rtake hp) with hnone | hp
    · cases hnone
    · exact List.mem_singleton.mp hp
  rw [hpacket] at hsame
  exact absurd hsame.1 (by decide)

end NetBridge

end DogeConnect
