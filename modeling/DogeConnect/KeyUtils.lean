/-
`key_utils.cpp`: identities.

An identity is a public key in letters: each of its four 64-bit words as 14
digits in base 26, least significant first, and 4 letters of a checksum of the
key.  14 digits hold more than 64 bits, and the reader multiplies and adds in an
`unsigned long long`:

    readFragment_eq        the reader takes the value of the letters modulo 2^64
    readFragments_encode   it gives back the words of an encoded key
    encode_readFragments   the words it reads encode to the letters, if none wrapped
    checkSumIdentity_canonical_iff   which strings are accepted as the identity of a key

The checksum is an arbitrary function of the key, three bytes as KangarooTwelve
writes them.
-/
import DogeConnect.Bytes

namespace DogeConnect

namespace KeyUtils

/-! ## The code -/

/-- `n` digits in base 26, least significant first. -/
def digitLetters (base : Nat) : Nat → Nat → List UInt8
  | 0, _ => []
  | n + 1, v => UInt8.ofNat (v % 26 + base) :: digitLetters base n (v / 26)

/-- The words of a key, 14 letters each. -/
def keyLetters (base : Nat) : Nat → List UInt8 → List UInt8
  | 0, _ => []
  | i + 1, key => digitLetters base 14 (leVal (key.take 8)) ++ keyLetters base i (key.drop 8)

/-- `identityBytesChecksum`, of which KangarooTwelve writes three bytes. -/
def identityBytesChecksum (kangarooTwelve : ByteArr 32 → ByteArr 3) (key : ByteArr 32) : Nat :=
  (kangarooTwelve key).val &&& 0x3FFFF

def letterBase (isLowerCase : Bool) : Nat := if isLowerCase then 97 else 65

theorem digitLetters_length (base n v : Nat) : (digitLetters base n v).length = n := by
  induction n generalizing v with
  | zero => rfl
  | succ n ih => rw [digitLetters, List.length_cons, ih]

theorem keyLetters_length (base i : Nat) (key : List UInt8) :
    (keyLetters base i key).length = 14 * i := by
  induction i generalizing key with
  | zero => rfl
  | succ i ih =>
      rw [keyLetters, List.length_append, digitLetters_length, ih]
      omega

def getIdentityFromPublicKey (kangarooTwelve : ByteArr 32 → ByteArr 3) (key : ByteArr 32)
    (isLowerCase : Bool) : ByteArr 60 :=
  ⟨keyLetters (letterBase isLowerCase) 4 key.toList
      ++ digitLetters (letterBase isLowerCase) 4 (identityBytesChecksum kangarooTwelve key), by
    rw [List.length_append, keyLetters_length, digitLetters_length]⟩

/-- A word from its letters, the last one first; `none` at a letter outside A to Z. -/
def readFragment : List UInt8 → Option UInt64
  | [] => some 0
  | c :: cs =>
    match readFragment cs with
    | none => none
    | some fragment =>
      if c < 65 ∨ 90 < c then none else some (fragment * 26 + (c - 65).toUInt64)

/-- The words of as many groups of 14 letters. -/
def readFragments : Nat → List UInt8 → Option (List UInt64)
  | 0, _ => some []
  | i + 1, identity =>
    match readFragment (identity.take 14) with
    | none => none
    | some fragment => (readFragments i (identity.drop 14)).map (fragment :: ·)

/-- `publicKeyBuffer`, if all letters are in range. -/
def readKey (identity : ByteArr 60) : Option (ByteArr 32) :=
  (readFragments 4 identity.toList).map fun fragments =>
    ByteArr.copy 32 (fragments.flatMap fun f => leBytes 8 f.toNat)

/-- `none` where `publicKey` is left unwritten. -/
def getPublicKeyFromIdentity (identity : ByteArr 60) : Option (ByteArr 32) := readKey identity

/-- The comparison of the last four letters. -/
def checkLetters : Nat → Nat → List UInt8 → Bool
  | 0, _, _ => true
  | n + 1, checksum, identity =>
    if UInt8.ofNat (checksum % 26 + 65) ≠ identity.headD 0 then false
    else checkLetters n (checksum / 26) identity.tail

def checkSumIdentity (kangarooTwelve : ByteArr 32 → ByteArr 3) (identity : ByteArr 60) : Bool :=
  match readKey identity with
  | none => false
  | some key =>
    checkLetters 4 (identityBytesChecksum kangarooTwelve key) (identity.toList.drop 56)

/-! ## Letters -/

/-- A letter A to Z. -/
def IsLetter (c : UInt8) : Prop := 65 ≤ c.toNat ∧ c.toNat ≤ 90

/-- The number that letters stand for. -/
def lettersVal (cs : List UInt8) : Nat := Nat.ofDigits 26 (cs.map fun c => c.toNat - 65)

theorem lettersVal_cons (c : UInt8) (cs : List UInt8) :
    lettersVal (c :: cs) = c.toNat - 65 + 26 * lettersVal cs := by
  rw [lettersVal, List.map_cons, Nat.ofDigits_cons]
  rfl

theorem isLetter_iff (c : UInt8) : ¬ (c < 65 ∨ 90 < c) ↔ IsLetter c := by
  rw [IsLetter, UInt8.lt_iff_toNat_lt, UInt8.lt_iff_toNat_lt]
  simp only [UInt8.toNat_ofNat]
  omega

theorem digitLetters_isLetter (n v : Nat) : ∀ c ∈ digitLetters 65 n v, IsLetter c := by
  induction n generalizing v with
  | zero =>
      intro c hc
      cases hc
  | succ n ih =>
      intro c hc
      rw [digitLetters] at hc
      rcases List.mem_cons.mp hc with rfl | hc
      · rw [IsLetter, UInt8.toNat_ofNat']
        omega
      · exact ih (v / 26) c hc

theorem lettersVal_digitLetters (n v : Nat) : lettersVal (digitLetters 65 n v) = v % 26 ^ n := by
  induction n generalizing v with
  | zero =>
      rw [Nat.pow_zero, Nat.mod_one]
      rfl
  | succ n ih =>
      rw [digitLetters, lettersVal_cons, ih, Nat.pow_succ', Nat.mod_mul, UInt8.toNat_ofNat']
      omega

theorem digitLetters_lettersVal {cs : List UInt8} (h : ∀ c ∈ cs, IsLetter c) :
    digitLetters 65 cs.length (lettersVal cs) = cs := by
  induction cs with
  | nil => rfl
  | cons c cs ih =>
      have hc : IsLetter c := h c List.mem_cons_self
      rw [IsLetter] at hc
      have hcs := ih fun d hd => h d (List.mem_cons_of_mem c hd)
      have hdigit : (c.toNat - 65 + 26 * lettersVal cs) % 26 + 65 = c.toNat := by omega
      have hrest : (c.toNat - 65 + 26 * lettersVal cs) / 26 = lettersVal cs := by omega
      rw [List.length_cons, digitLetters, lettersVal_cons, hdigit, hrest, hcs, UInt8.ofNat_toNat]

theorem readFragment_eq {cs : List UInt8} (h : ∀ c ∈ cs, IsLetter c) :
    readFragment cs = some (UInt64.ofNat (lettersVal cs)) := by
  induction cs with
  | nil => rfl
  | cons c cs ih =>
      have hc : IsLetter c := h c List.mem_cons_self
      have hcs := ih fun d hd => h d (List.mem_cons_of_mem c hd)
      have hdigit : (c - 65).toNat = c.toNat - 65 := by
        rw [IsLetter] at hc
        rw [UInt8.toNat_sub_of_le _ _ (by rw [UInt8.le_iff_toNat_le]; exact hc.1)]
        rfl
      simp only [readFragment, hcs]
      rw [if_neg ((isLetter_iff c).mpr hc), Option.some_inj, ← UInt64.toNat_inj,
        UInt64.toNat_add, UInt64.toNat_mul, UInt8.toNat_toUInt64, hdigit, UInt64.toNat_ofNat',
        UInt64.toNat_ofNat', lettersVal_cons]
      simp only [UInt64.toNat_ofNat]
      omega

theorem isLetter_of_readFragment {cs : List UInt8} {fragment : UInt64}
    (h : readFragment cs = some fragment) : ∀ c ∈ cs, IsLetter c := by
  induction cs generalizing fragment with
  | nil =>
      intro c hc
      cases hc
  | cons d cs ih =>
      intro c hc
      rw [readFragment] at h
      split at h
      · cases h
      next rest hrest =>
        split at h
        · cases h
        next hd =>
          rcases List.mem_cons.mp hc with rfl | hc
          · exact (isLetter_iff c).mp hd
          · exact ih hrest c hc

/-! ## Words -/

/-- The words of a key. -/
def keyFragments : Nat → List UInt8 → List UInt64
  | 0, _ => []
  | i + 1, key => UInt64.ofNat (leVal (key.take 8)) :: keyFragments i (key.drop 8)

/-- The letters of an identity's groups are their values' digits: none of the
groups stands for 2^64 or more. -/
def Canonical : Nat → List UInt8 → Prop
  | 0, _ => True
  | i + 1, identity => lettersVal (identity.take 14) < 2 ^ 64 ∧ Canonical i (identity.drop 14)

theorem leVal_take_lt (key : List UInt8) : leVal (key.take 8) < 2 ^ 64 := by
  have hlt := leVal_lt (key.take 8)
  have hlen : (key.take 8).length ≤ 8 := List.length_take_le 8 key
  calc leVal (key.take 8) < 256 ^ (key.take 8).length := hlt
    _ ≤ 256 ^ 8 := Nat.pow_le_pow_right (by decide) hlen
    _ = 2 ^ 64 := by decide

theorem lettersVal_word (key : List UInt8) :
    lettersVal (digitLetters 65 14 (leVal (key.take 8))) = leVal (key.take 8) := by
  rw [lettersVal_digitLetters, Nat.mod_eq_of_lt]
  exact Nat.lt_trans (leVal_take_lt key) (by decide)

theorem readFragments_encode (i : Nat) (key rest : List UInt8) :
    readFragments i (keyLetters 65 i key ++ rest) = some (keyFragments i key) := by
  induction i generalizing key with
  | zero => rfl
  | succ i ih =>
      have hlen := digitLetters_length 65 14 (leVal (key.take 8))
      have htake : (keyLetters 65 (i + 1) key ++ rest).take 14
          = digitLetters 65 14 (leVal (key.take 8)) := by
        rw [keyLetters, List.append_assoc, List.take_left' hlen]
      have hdrop : (keyLetters 65 (i + 1) key ++ rest).drop 14
          = keyLetters 65 i (key.drop 8) ++ rest := by
        rw [keyLetters, List.append_assoc, List.drop_left' hlen]
      rw [readFragments, htake, hdrop, readFragment_eq (digitLetters_isLetter 14 _),
        lettersVal_word, ih]
      rfl

theorem canonical_encode (i : Nat) (key rest : List UInt8) :
    Canonical i (keyLetters 65 i key ++ rest) := by
  induction i generalizing key with
  | zero => trivial
  | succ i ih =>
      have hlen := digitLetters_length 65 14 (leVal (key.take 8))
      rw [Canonical, keyLetters, List.append_assoc, List.take_left' hlen, List.drop_left' hlen,
        lettersVal_word]
      exact ⟨leVal_take_lt key, ih (key.drop 8)⟩

theorem flatMap_keyFragments (i : Nat) (key : List UInt8) (h : key.length = 8 * i) :
    (keyFragments i key).flatMap (fun f => leBytes 8 f.toNat) = key := by
  induction i generalizing key with
  | zero => exact (List.length_eq_zero_iff.mp h).symm
  | succ i ih =>
      have hword : leBytes 8 (leVal (key.take 8)) = key.take 8 := by
        have hlen : (key.take 8).length = 8 := by rw [List.length_take]; omega
        have hbytes := leBytes_leVal (key.take 8)
        rwa [hlen] at hbytes
      have htail := ih (key.drop 8) (by rw [List.length_drop]; omega)
      rw [keyFragments, List.flatMap_cons, htail, UInt64.toNat_ofNat',
        Nat.mod_eq_of_lt (leVal_take_lt key), hword, List.take_append_drop]

theorem length_flatMap_leBytes (fs : List UInt64) :
    (fs.flatMap fun f => leBytes 8 f.toNat).length = 8 * fs.length := by
  induction fs with
  | nil => rfl
  | cons f fs ih =>
      rw [List.flatMap_cons, List.length_append, leBytes_length, ih, List.length_cons]
      omega

theorem readFragments_length {i : Nat} {identity : List UInt8} {fs : List UInt64}
    (h : readFragments i identity = some fs) : fs.length = i := by
  induction i generalizing identity fs with
  | zero =>
      cases h
      rfl
  | succ i ih =>
      rw [readFragments] at h
      split at h
      · cases h
      · obtain ⟨gs, hgs, rfl⟩ := Option.map_eq_some_iff.mp h
        rw [List.length_cons, ih hgs]

/-- Letters of canonical groups are the encoding of what is read from them. -/
theorem encode_readFragments {i : Nat} {identity : List UInt8} {fs : List UInt64}
    (h : readFragments i identity = some fs) (hlen : 14 * i ≤ identity.length)
    (hcanonical : Canonical i identity) :
    keyLetters 65 i (fs.flatMap fun f => leBytes 8 f.toNat) = identity.take (14 * i) := by
  induction i generalizing identity fs with
  | zero => rfl
  | succ i ih =>
      rw [readFragments] at h
      split at h
      · cases h
      next f hf =>
        obtain ⟨gs, hgs, rfl⟩ := Option.map_eq_some_iff.mp h
        have hletters := isLetter_of_readFragment hf
        have hval : f.toNat = lettersVal (identity.take 14) := by
          rw [readFragment_eq hletters, Option.some_inj] at hf
          rw [← hf, UInt64.toNat_ofNat', Nat.mod_eq_of_lt hcanonical.1]
        have hgroup : (identity.take 14).length = 14 := by rw [List.length_take]; omega
        have hword : leVal (leBytes 8 f.toNat) = f.toNat :=
          leVal_leBytes_of_lt (by rw [show 256 ^ 8 = 2 ^ 64 from rfl]; exact f.toNat_lt)
        have hdigits := digitLetters_lettersVal hletters
        rw [hgroup] at hdigits
        have hrest := ih hgs (by rw [List.length_drop]; omega) hcanonical.2
        rw [keyLetters, List.flatMap_cons, List.take_left' (leBytes_length 8 f.toNat),
          List.drop_left' (leBytes_length 8 f.toNat), hrest, hword, hval, hdigits,
          show 14 * (i + 1) = 14 + 14 * i by omega, List.take_add]

/-- The bytes of the groups' values, each modulo 2^64. -/
def groupBytes : Nat → List UInt8 → List UInt8
  | 0, _ => []
  | i + 1, identity =>
    leBytes 8 (lettersVal (identity.take 14)) ++ groupBytes i (identity.drop 14)

theorem groupBytes_append {group : List UInt8} (rest : List UInt8) (i : Nat)
    (h : group.length = 14) :
    groupBytes (i + 1) (group ++ rest) = leBytes 8 (lettersVal group) ++ groupBytes i rest := by
  rw [groupBytes, List.take_left' h, List.drop_left' h]

theorem readFragments_eq (i : Nat) {identity : List UInt8}
    (h : ∀ c ∈ identity.take (14 * i), IsLetter c) :
    ∃ fs, readFragments i identity = some fs ∧
      fs.flatMap (fun f => leBytes 8 f.toNat) = groupBytes i identity := by
  induction i generalizing identity with
  | zero => exact ⟨[], rfl, rfl⟩
  | succ i ih =>
      rw [show 14 * (i + 1) = 14 + 14 * i by omega, List.take_add] at h
      obtain ⟨fs, hfs, hbytes⟩ := ih fun c hc => h c (List.mem_append_right (identity.take 14) hc)
      have hgroup := readFragment_eq fun c hc => h c (List.mem_append_left _ hc)
      refine ⟨UInt64.ofNat (lettersVal (identity.take 14)) :: fs, ?_, ?_⟩
      · simp only [readFragments, hgroup, hfs, Option.map_some]
      · rw [List.flatMap_cons, hbytes, UInt64.toNat_ofNat']
        exact congrArg (· ++ _) (leBytes_mod 8 _)

theorem isLetter_of_readFragments {i : Nat} {identity : List UInt8} {fs : List UInt64}
    (h : readFragments i identity = some fs) : ∀ c ∈ identity.take (14 * i), IsLetter c := by
  induction i generalizing identity fs with
  | zero =>
      intro c hc
      cases hc
  | succ i ih =>
      intro c hc
      rw [readFragments] at h
      split at h
      · cases h
      next f hf =>
        obtain ⟨gs, hgs, rfl⟩ := Option.map_eq_some_iff.mp h
        rw [show 14 * (i + 1) = 14 + 14 * i by omega, List.take_add] at hc
        rcases List.mem_append.mp hc with hc | hc
        · exact isLetter_of_readFragment hf c hc
        · exact ih hgs c hc

/-! ## Identities -/

/-- The key that the groups of an identity stand for, each modulo 2^64. -/
def groupKey (identity : ByteArr 60) : ByteArr 32 :=
  ByteArr.copy 32 (groupBytes 4 identity.toList)

/-- 56 letters, then the checksum of the key they stand for modulo 2^64. -/
def Checked (kangarooTwelve : ByteArr 32 → ByteArr 3) (identity : ByteArr 60) : Prop :=
  (∀ c ∈ identity.toList.take 56, IsLetter c) ∧
    identity.toList.drop 56
      = digitLetters 65 4 (identityBytesChecksum kangarooTwelve (groupKey identity))

theorem checkLetters_iff {n : Nat} (checksum : Nat) {identity : List UInt8}
    (h : identity.length = n) :
    checkLetters n checksum identity = true ↔ identity = digitLetters 65 n checksum := by
  induction n generalizing checksum identity with
  | zero =>
      rw [List.length_eq_zero_iff] at h
      exact iff_of_true rfl h
  | succ n ih =>
      cases identity with
      | nil => cases h
      | cons c cs =>
          have hcs := ih (checksum / 26) (Nat.succ.inj h)
          rw [checkLetters, digitLetters, List.headD_cons, List.tail_cons, List.cons.injEq]
          split
          next hne => exact iff_of_false nofun fun heq => hne heq.1.symm
          next heq =>
            rw [not_not] at heq
            rw [hcs]
            exact ⟨fun hrest => ⟨heq.symm, hrest⟩, fun hall => hall.2⟩

theorem readKey_eq_some_iff (identity : ByteArr 60) (key : ByteArr 32) :
    readKey identity = some key ↔
      (∀ c ∈ identity.toList.take 56, IsLetter c) ∧ key = groupKey identity := by
  rw [readKey]
  constructor
  · intro h
    obtain ⟨fs, hfs, rfl⟩ := Option.map_eq_some_iff.mp h
    have hletters := isLetter_of_readFragments hfs
    obtain ⟨gs, hgs, hbytes⟩ := readFragments_eq 4 hletters
    rw [hfs] at hgs
    cases hgs
    exact ⟨hletters, by rw [hbytes, groupKey]⟩
  · rintro ⟨hletters, rfl⟩
    obtain ⟨fs, hfs, hbytes⟩ := readFragments_eq 4 hletters
    rw [hfs, Option.map_some, hbytes, groupKey]

theorem checkSumIdentity_iff (kangarooTwelve : ByteArr 32 → ByteArr 3) (identity : ByteArr 60) :
    checkSumIdentity kangarooTwelve identity = true ↔ Checked kangarooTwelve identity := by
  have hlen : (identity.toList.drop 56).length = 4 := by
    rw [List.length_drop, ByteArr.length]
  rw [checkSumIdentity, Checked]
  split
  next hnone =>
    refine iff_of_false nofun fun h => ?_
    rw [(readKey_eq_some_iff identity _).mpr ⟨h.1, rfl⟩] at hnone
    cases hnone
  next key hkey =>
    obtain ⟨hletters, rfl⟩ := (readKey_eq_some_iff identity key).mp hkey
    rw [checkLetters_iff _ hlen]
    exact ⟨fun h => ⟨hletters, h⟩, fun h => h.2⟩

theorem readKey_getIdentity (kangarooTwelve : ByteArr 32 → ByteArr 3) (key : ByteArr 32) :
    readKey (getIdentityFromPublicKey kangarooTwelve key false) = some key := by
  have hread := readFragments_encode 4 key.toList
    (digitLetters 65 4 (identityBytesChecksum kangarooTwelve key))
  have hbytes := flatMap_keyFragments 4 key.toList key.length
  rw [readKey, getIdentityFromPublicKey]
  simp only [letterBase, Bool.false_eq_true, if_false]
  rw [hread, Option.map_some, hbytes, ByteArr.copy_self]

/-- A checked identity without a wrapped group is its key's identity. -/
theorem identity_of_checked {kangarooTwelve : ByteArr 32 → ByteArr 3} {identity : ByteArr 60}
    (h : Checked kangarooTwelve identity) (hcanonical : Canonical 4 identity.toList) :
    identity = getIdentityFromPublicKey kangarooTwelve (groupKey identity) false := by
  obtain ⟨hletters, hchecksum⟩ := h
  obtain ⟨fs, hfs, hbytes⟩ := readFragments_eq 4 hletters
  have hencode := encode_readFragments hfs (by rw [ByteArr.length]; decide) hcanonical
  have hkey : (groupKey identity).toList = groupBytes 4 identity.toList := by
    rw [groupKey, ByteArr.copy_toList]
    rw [← hbytes, length_flatMap_leBytes, readFragments_length hfs]
  apply ByteArr.ext
  rw [getIdentityFromPublicKey]
  simp only [letterBase, Bool.false_eq_true, if_false]
  rw [hkey, ← hbytes, hencode, ← hchecksum, List.take_append_drop]

/-- A string is accepted just when it is the identity of a key, and then that key
is what is read from it. -/
def IsCanonical (kangarooTwelve : ByteArr 32 → ByteArr 3) (identity : ByteArr 60) : Prop :=
  (checkSumIdentity kangarooTwelve identity = true ↔
    ∃ key, identity = getIdentityFromPublicKey kangarooTwelve key false) ∧
  ∀ key, identity = getIdentityFromPublicKey kangarooTwelve key false →
    getPublicKeyFromIdentity identity = some key

theorem isCanonical_iff (kangarooTwelve : ByteArr 32 → ByteArr 3) (identity : ByteArr 60) :
    IsCanonical kangarooTwelve identity ↔
      (Checked kangarooTwelve identity → Canonical 4 identity.toList) := by
  constructor
  · rintro ⟨haccept, -⟩ hchecked
    obtain ⟨key, rfl⟩ := haccept.mp ((checkSumIdentity_iff kangarooTwelve identity).mpr hchecked)
    exact canonical_encode 4 key.toList _
  · intro hcanonical
    refine ⟨⟨fun haccept => ?_, ?_⟩, ?_⟩
    · have hchecked := (checkSumIdentity_iff kangarooTwelve identity).mp haccept
      exact ⟨groupKey identity, identity_of_checked hchecked (hcanonical hchecked)⟩
    · rintro ⟨key, rfl⟩
      rw [checkSumIdentity, readKey_getIdentity]
      refine (checkLetters_iff _ (by rw [List.length_drop, ByteArr.length])).mpr ?_
      exact List.drop_left' (keyLetters_length 65 4 key.toList)
    · rintro key rfl
      exact readKey_getIdentity kangarooTwelve key

/-- Acceptance is right unless the letters and the checksum fit a key modulo
2^64 but a group of letters stands for more; where it is right for two
identities, they denote two keys. -/
theorem checkSumIdentity_canonical_iff (kangarooTwelve : ByteArr 32 → ByteArr 3) :
    (∀ identity, IsCanonical kangarooTwelve identity ↔
      (Checked kangarooTwelve identity → Canonical 4 identity.toList)) ∧
    ∀ identity identity' : ByteArr 60,
      (Checked kangarooTwelve identity → Canonical 4 identity.toList) →
      (Checked kangarooTwelve identity' → Canonical 4 identity'.toList) →
      checkSumIdentity kangarooTwelve identity = true →
      checkSumIdentity kangarooTwelve identity' = true → identity ≠ identity' →
      getPublicKeyFromIdentity identity ≠ getPublicKeyFromIdentity identity' := by
  refine ⟨isCanonical_iff kangarooTwelve, ?_⟩
  intro identity identity' hcanonical hcanonical' haccept haccept' hne hkey
  have hright := (isCanonical_iff kangarooTwelve identity).mpr hcanonical
  have hright' := (isCanonical_iff kangarooTwelve identity').mpr hcanonical'
  obtain ⟨key, heq⟩ := hright.1.mp haccept
  obtain ⟨key', heq'⟩ := hright'.1.mp haccept'
  rw [hright.2 key heq, hright'.2 key' heq', Option.some_inj] at hkey
  exact hne (by rw [heq, heq', hkey])

/-- A letter in front of 59 times the letter A. -/
def plainIdentity (c : UInt8) : ByteArr 60 := ⟨c :: List.replicate 59 65, rfl⟩

/-- Under a checksum that is always zero, two identities and their keys. -/
theorem plainIdentity_distinct :
    getPublicKeyFromIdentity (plainIdentity 65) ≠ getPublicKeyFromIdentity (plainIdentity 66) :=
  (checkSumIdentity_canonical_iff fun _ => ByteArr.fill 3 0).2 (plainIdentity 65)
    (plainIdentity 66)
    (fun _ => ⟨by decide, by decide, by decide, by decide, trivial⟩)
    (fun _ => ⟨by decide, by decide, by decide, by decide, trivial⟩)
    (by decide +kernel) (by decide +kernel) (by decide)

/-- An identity for the key that is zero, whose first word is written as 2^64. -/
def wrappedIdentity (kangarooTwelve : ByteArr 32 → ByteArr 3) : ByteArr 60 :=
  ⟨digitLetters 65 14 (2 ^ 64) ++ (List.replicate 14 65 ++ (List.replicate 14 65
      ++ (List.replicate 14 65
        ++ digitLetters 65 4 (identityBytesChecksum kangarooTwelve (ByteArr.fill 32 0))))), by
    simp only [List.length_append, digitLetters_length, List.length_replicate]⟩

theorem wrappedIdentity_groupKey (kangarooTwelve : ByteArr 32 → ByteArr 3) :
    groupKey (wrappedIdentity kangarooTwelve) = ByteArr.fill 32 0 := by
  have hrest : (List.replicate 14 (65 : UInt8)).length = 14 := List.length_replicate
  have hbytes : groupBytes 4 (wrappedIdentity kangarooTwelve).toList = List.replicate 32 0 := by
    rw [wrappedIdentity, groupBytes_append _ 3 (digitLetters_length 65 14 _),
      groupBytes_append _ 2 hrest, groupBytes_append _ 1 hrest, groupBytes_append _ 0 hrest,
      lettersVal_digitLetters]
    rfl
  apply ByteArr.ext
  rw [groupKey, hbytes, ByteArr.copy_toList List.length_replicate]
  rfl

/-- Whatever the checksum function, it is accepted, and it is no key's identity. -/
theorem wrappedIdentity_not_canonical : ¬ ∃ kangarooTwelve : ByteArr 32 → ByteArr 3,
    ∀ identity, IsCanonical kangarooTwelve identity := by
  rintro ⟨kangarooTwelve, hall⟩
  have hletters : ∀ c ∈ (wrappedIdentity kangarooTwelve).toList.take 56, IsLetter c := by
    intro c hc
    rw [show (wrappedIdentity kangarooTwelve).toList.take 56 = digitLetters 65 14 (2 ^ 64)
      ++ (List.replicate 14 65 ++ (List.replicate 14 65 ++ List.replicate 14 65)) from rfl] at hc
    simp only [List.mem_append, List.mem_replicate] at hc
    rcases hc with hc | ⟨-, rfl⟩ | ⟨-, rfl⟩ | ⟨-, rfl⟩
    · exact digitLetters_isLetter 14 (2 ^ 64) c hc
    · exact ⟨by decide, by decide⟩
    · exact ⟨by decide, by decide⟩
    · exact ⟨by decide, by decide⟩
  have hchecked : Checked kangarooTwelve (wrappedIdentity kangarooTwelve) := by
    refine ⟨hletters, ?_⟩
    rw [wrappedIdentity_groupKey]
    rfl
  have hcanonical := (isCanonical_iff kangarooTwelve _).mp (hall _) hchecked
  have hvalue : lettersVal (digitLetters 65 14 (2 ^ 64)) < 2 ^ 64 := hcanonical.1
  exact absurd hvalue (by decide)

end KeyUtils

end DogeConnect
