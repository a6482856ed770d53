import MostroApp.Lib.Checked
import MostroApp.Lib.Text
import MostroApp.Cashu.Nut11

set_option autoImplicit false

/-! # The Cashu escrow

An escrow is locked to three keys: the seller's as `data`, the buyer's and Mostro's as the extra
`pubkeys`. Two signatures release it, and the seller alone may take it back once the locktime is
over. `escrowConditions` builds the condition, and `verifyConditions` checks one that somebody
else has built: every field of it, since each that went unchecked would open another way to spend.

Trade keys are `x` coordinates, and the `02` prefix makes keys of them: different keys of one escrow
have different `x`, so that no signature counts for two of them.
-/

namespace MostroApp.Escrow

open Checked Nut11

/-- What the escrow uses of `cdk`, and the text that `{:?}` gives for a `str`. -/
structure Cdk where
  fromHex : String → Except String PublicKey
  newConditions : (locktime : Option Nat) → (pubkeys refundKeys : Option (List PublicKey)) →
    (numSigs : Option Nat) → (sigFlag : Option SigFlag) → (numSigsRefund : Option Nat) →
    Except String Conditions
  debug : String → String

/-- What `cdk` is documented to do: the prefix `02` stands for an even `y`, and conditions that are
accepted hold what they were made of. -/
structure Cdk.Documented (cdk : Cdk) : Prop where
  even : ∀ h k, cdk.fromHex ("02" ++ h) = .ok k → k.odd = false
  fields : ∀ locktime pubkeys refundKeys numSigs sigFlag numSigsRefund c,
    cdk.newConditions locktime pubkeys refundKeys numSigs sigFlag numSigsRefund = .ok c →
    c = ⟨locktime, pubkeys, refundKeys, numSigs, sigFlag.getD .sigInputs, numSigsRefund⟩

/-- `bail!` unless the check holds. -/
def ensure (check : Prop) [Decidable check] (error : String) : Except String Unit :=
  if check then .ok () else .error error

def okOr {α : Type} (error : String) : Option α → Except String α
  | none => .error error
  | some a => .ok a

/-- `{:?}` of an optional number. -/
def debugOption : Option Nat → String
  | none => "None"
  | some n => s!"Some({n})"

/-- `char::is_ascii_hexdigit`. -/
def isAsciiHexdigit (c : Char) : Bool :=
  ('0' ≤ c && c ≤ '9') || ('a' ≤ c && c ≤ 'f') || ('A' ≤ c && c ≤ 'F')

def Cdk.xonlyToCashuPubkey (cdk : Cdk) (xonlyHex : String) : Except String PublicKey := do
  let hex := Text.trim xonlyHex
  ensure (hex.utf8ByteSize = 64 ∧ hex.toList.all isAsciiHexdigit)
    s!"InvalidTradeKey: expected 64 hex characters, got {cdk.debug hex}"
  (cdk.fromHex ("02" ++ hex)).mapError fun e =>
    s!"InvalidTradeKey: {hex} is not a valid point ({e})"

/-! ## The parties -/

structure EscrowParties where
  buyer : PublicKey
  seller : PublicKey
  mostro : PublicKey

namespace EscrowParties

def ensureDistinct (p : EscrowParties) : Except String Unit :=
  ensure (¬ (p.buyer = p.seller ∨ p.buyer = p.mostro ∨ p.seller = p.mostro))
    "InvalidEscrowParties: buyer, seller and Mostro must be three different keys"

def fromXonlyHex (cdk : Cdk) (buyer seller mostro : String) : Except String EscrowParties := do
  let parties : EscrowParties :=
    { buyer := ← cdk.xonlyToCashuPubkey buyer
      seller := ← cdk.xonlyToCashuPubkey seller
      mostro := ← cdk.xonlyToCashuPubkey mostro }
  parties.ensureDistinct
  return parties

end EscrowParties

/-! ## The condition -/

def escrowConditions (cdk : Cdk) (parties : EscrowParties) (locktime : Nat) :
    Except String SpendingConditions := do
  parties.ensureDistinct
  let conditions ← (cdk.newConditions (some locktime) (some [parties.buyer, parties.mostro])
    (some [parties.seller]) (some 2) (some .sigInputs) (some 1)).mapError
      fun e => s!"InvalidEscrowConditions: {e}"
  return .p2pk parties.seller (some conditions)

/-- The locktime's own check. -/
def verifyLocktime (minLocktime : Nat) : Option Nat → Except String Unit
  | some l =>
    ensure (minLocktime ≤ l) s!"InvalidEscrowToken: locktime {l} is before {minLocktime}"
  | none => .error "InvalidEscrowToken: no locktime"

def verifyConditions (conditions : SpendingConditions) (parties : EscrowParties)
    (minLocktime : Nat) : Except String Unit := do
  parties.ensureDistinct
  let .p2pk data conditions := conditions | .error "InvalidEscrowToken: not a P2PK secret"
  ensure (data = parties.seller) "InvalidEscrowToken: locked to the wrong seller key"
  let c ← okOr "InvalidEscrowToken: no spending conditions" conditions
  let pubkeys ← okOr "InvalidEscrowToken: no additional pubkeys" c.pubkeys
  -- exactly two, and exactly these two: a third key would be the attacker's second signature
  ensure (pubkeys.length = 2)
    s!"InvalidEscrowToken: expected exactly 2 additional pubkeys, got {pubkeys.length}"
  ensure (parties.buyer ∈ pubkeys ∧ parties.mostro ∈ pubkeys)
    "InvalidEscrowToken: buyer or Mostro key missing"
  ensure (c.numSigs = some 2)
    s!"InvalidEscrowToken: n_sigs must be 2, got {debugOption c.numSigs}"
  ensure (c.sigFlag = .sigInputs) "InvalidEscrowToken: sigflag must be SIG_INPUTS"
  verifyLocktime minLocktime c.locktime
  ensure (c.refundKeys = some [parties.seller])
    "InvalidEscrowToken: refund key must be the seller alone"
  ensure (c.numSigsRefund.getD 1 = 1) "InvalidEscrowToken: n_sigs_refund must be 1"

/-! ## What the checks accept -/

theorem ensure_eq_ok {check : Prop} [Decidable check] {error : String} :
    ensure check error = .ok () ↔ check := by
  unfold ensure
  split <;> simp [*]

/-- A check comes before the rest. -/
theorem ensure_bind_eq_ok {α : Type} {check : Prop} [Decidable check] {error : String}
    {rest : Unit → Except String α} {a : α} :
    (ensure check error >>= rest) = .ok a ↔ check ∧ rest () = .ok a := by
  unfold ensure
  split <;> simp [*, bind, Except.bind]

theorem okOr_bind_eq_ok {α β : Type} {error : String} {o : Option α}
    {rest : α → Except String β} {b : β} :
    (okOr error o >>= rest) = .ok b ↔ ∃ a, o = some a ∧ rest a = .ok b := by
  cases o <;> simp [okOr, bind, Except.bind]

theorem verifyLocktime_eq_ok {minLocktime : Nat} {locktime : Option Nat} :
    verifyLocktime minLocktime locktime = .ok () ↔ ∃ l, locktime = some l ∧ minLocktime ≤ l := by
  cases locktime <;> simp [verifyLocktime, ensure_eq_ok]

variable {cdk : Cdk} {parties : EscrowParties} {buyer seller mostro : String}

/-- Three different keys. -/
structure EscrowParties.Distinct (p : EscrowParties) : Prop where
  buyer_seller : p.buyer ≠ p.seller
  buyer_mostro : p.buyer ≠ p.mostro
  seller_mostro : p.seller ≠ p.mostro

theorem ensureDistinct_eq_ok : parties.ensureDistinct = .ok () ↔ parties.Distinct := by
  unfold EscrowParties.ensureDistinct
  rw [ensure_eq_ok]
  constructor
  · intro h
    exact ⟨fun hbs => h (.inl hbs), fun hbm => h (.inr (.inl hbm)),
      fun hsm => h (.inr (.inr hsm))⟩
  · rintro ⟨hbs, hbm, hsm⟩ (h | h | h)
    · exact hbs h
    · exact hbm h
    · exact hsm h

/-- Two keys that differ, in a list of two: the list is of them, in either order. -/
theorem eq_pair {a b : PublicKey} {keys : List PublicKey} (hab : a ≠ b)
    (hlen : keys.length = 2) (ha : a ∈ keys) (hb : b ∈ keys) : keys = [a, b] ∨ keys = [b, a] := by
  obtain ⟨k, k', rfl⟩ := List.length_eq_two.mp hlen
  rcases List.mem_pair.mp ha with rfl | rfl <;> rcases List.mem_pair.mp hb with rfl | rfl
  · exact absurd rfl hab
  · exact .inl rfl
  · exact .inr rfl
  · exact absurd rfl hab

/-- What an accepted condition is. -/
structure Locked (parties : EscrowParties) (minLocktime : Nat) (c : Conditions) : Prop where
  pubkeys : ∃ keys, c.pubkeys = some keys ∧ keys.length = 2 ∧ parties.buyer ∈ keys ∧
    parties.mostro ∈ keys
  numSigs : c.numSigs = some 2
  sigFlag : c.sigFlag = .sigInputs
  locktime : ∃ l, c.locktime = some l ∧ minLocktime ≤ l
  refundKeys : c.refundKeys = some [parties.seller]
  numSigsRefund : c.numSigsRefund.getD 1 = 1

/-- **The check accepts exactly the conditions that lock to the parties.** -/
theorem verifyConditions_eq_ok {conditions : SpendingConditions} {minLocktime : Nat} :
    verifyConditions conditions parties minLocktime = .ok () ↔
      parties.Distinct ∧
        ∃ c, conditions = .p2pk parties.seller (some c) ∧ Locked parties minLocktime c := by
  unfold verifyConditions
  rw [bind_eq_ok]
  constructor
  · intro ⟨_, hdistinct, h⟩
    refine ⟨ensureDistinct_eq_ok.mp hdistinct, ?_⟩
    cases conditions with
    | htlc hash conditions => nomatch h
    | p2pk data conditions =>
      simp only [ensure_bind_eq_ok, okOr_bind_eq_ok, bind_eq_ok (x := verifyLocktime _ _)] at h
      obtain ⟨rfl, c, rfl, keys, hkeys, hlen, ⟨hb, hm⟩, hsigs, hflag, _, hlock, hrefund, h⟩ := h
      exact ⟨c, rfl, ⟨keys, hkeys, hlen, hb, hm⟩, hsigs, hflag, verifyLocktime_eq_ok.mp hlock,
        hrefund, ensure_eq_ok.mp h⟩
  · rintro ⟨hdistinct, c, rfl, hlocked⟩
    obtain ⟨keys, hkeys, hlen, hb, hm⟩ := hlocked.pubkeys
    refine ⟨(), ensureDistinct_eq_ok.mpr hdistinct, ?_⟩
    simp only [ensure_bind_eq_ok, okOr_bind_eq_ok, bind_eq_ok (x := verifyLocktime _ _)]
    exact ⟨trivial, c, rfl, keys, hkeys, hlen, ⟨hb, hm⟩, hlocked.numSigs, hlocked.sigFlag, (),
      verifyLocktime_eq_ok.mpr hlocked.locktime, hlocked.refundKeys,
      ensure_eq_ok.mpr hlocked.numSigsRefund⟩

/-! ## The keys of the parties -/

/-- A key's text is 64 hexadecimal digits, and the key has even parity. -/
theorem xonlyToCashuPubkey_eq_ok {xonlyHex : String} {k : PublicKey} :
    cdk.xonlyToCashuPubkey xonlyHex = .ok k ↔
      ((Text.trim xonlyHex).utf8ByteSize = 64 ∧
        (Text.trim xonlyHex).toList.all isAsciiHexdigit) ∧
      cdk.fromHex ("02" ++ Text.trim xonlyHex) = .ok k := by
  unfold Cdk.xonlyToCashuPubkey
  rw [ensure_bind_eq_ok, mapError_eq_ok]

/-- Even keys of one `x` are one key. -/
theorem eq_of_x {k k' : PublicKey} (hk : k.odd = false) (hk' : k'.odd = false)
    (hx : k.x = k'.x) : k = k' := by
  cases k
  cases k'
  simp_all

/-- The parties that are built are three keys, and no two have one `x`. -/
structure Parties (p : EscrowParties) : Prop where
  distinct : p.Distinct
  buyer_seller : p.buyer.x ≠ p.seller.x
  buyer_mostro : p.buyer.x ≠ p.mostro.x
  seller_mostro : p.seller.x ≠ p.mostro.x

/-- Three texts of three different keys make the parties. -/
theorem fromXonlyHex_eq_ok : EscrowParties.fromXonlyHex cdk buyer seller mostro = .ok parties ↔
    cdk.xonlyToCashuPubkey buyer = .ok parties.buyer ∧
      cdk.xonlyToCashuPubkey seller = .ok parties.seller ∧
        cdk.xonlyToCashuPubkey mostro = .ok parties.mostro ∧ parties.Distinct := by
  unfold EscrowParties.fromXonlyHex
  simp only [bind_eq_ok]
  constructor
  · rintro ⟨b, hb, s, hs, m, hm, _, hdistinct, heq⟩
    cases heq
    exact ⟨hb, hs, hm, ensureDistinct_eq_ok.mp hdistinct⟩
  · rintro ⟨hb, hs, hm, hdistinct⟩
    exact ⟨_, hb, _, hs, _, hm, (), ensureDistinct_eq_ok.mpr hdistinct, rfl⟩

theorem fromXonlyHex_parties (hcdk : cdk.Documented)
    (h : EscrowParties.fromXonlyHex cdk buyer seller mostro = .ok parties) : Parties parties := by
  obtain ⟨hb, hs, hm, hd⟩ := fromXonlyHex_eq_ok.mp h
  have even : ∀ {xonlyHex : String} {k : PublicKey},
      cdk.xonlyToCashuPubkey xonlyHex = .ok k → k.odd = false :=
    fun hk => hcdk.even _ _ (xonlyToCashuPubkey_eq_ok.mp hk).2
  exact {
    distinct := hd
    -- different keys of one `x` would differ in parity
    buyer_seller := fun hx => hd.buyer_seller (eq_of_x (even hb) (even hs) hx)
    buyer_mostro := fun hx => hd.buyer_mostro (eq_of_x (even hb) (even hm) hx)
    seller_mostro := fun hx => hd.seller_mostro (eq_of_x (even hs) (even hm) hx) }

/-! ## Who can spend an escrow -/

variable {c : Conditions} {m : Nat} {now : Nat} {signers : Set Nat}

/-- The signature path is two of the three. -/
theorem Locked.signatures (hc : Locked parties m c) (hd : parties.Distinct) :
    Threshold (c.numSigs.getD 1) (parties.seller :: c.pubkeys.getD []) signers ↔
      TwoOf parties.buyer parties.seller parties.mostro signers := by
  obtain ⟨keys, hkeys, hlen, hb, hm⟩ := hc.pubkeys
  rw [hc.numSigs, hkeys, ← threshold_two_of_three hd.buyer_seller hd.buyer_mostro hd.seller_mostro]
  constructor
  · refine Threshold.mono ?_
    rcases eq_pair hd.buyer_mostro hlen hb hm with rfl | rfl <;> simp
  · refine Threshold.mono ?_
    simp [hb, hm]

/-- The refund path is the seller's alone. -/
theorem Locked.refunds (hc : Locked parties m c) {l : Nat} (hl : c.locktime = some l) :
    c.Refunds now signers ↔ l < now ∧ parties.seller.x ∈ signers := by
  unfold Conditions.Refunds
  rw [hc.refundKeys, hc.numSigsRefund, hl]
  simp [threshold_one]

/-- What is so of an escrow of these parties. -/
structure EscrowRight (cdk : Cdk) (parties : EscrowParties) : Prop where
  /-- Each of the three signs for its own key alone. -/
  keys : Parties parties
  /-- An accepted condition is spent by two of the three, and after its locktime by the seller. -/
  accepted : ∀ conditions m, verifyConditions conditions parties m = .ok () →
    ∃ c l, conditions = .p2pk parties.seller (some c) ∧ c.locktime = some l ∧ m ≤ l ∧
      ∀ now signers,
        (now ≤ l → (CanSpend now signers parties.seller (some c) ↔
          TwoOf parties.buyer parties.seller parties.mostro signers)) ∧
        (l < now → (CanSpend now signers parties.seller (some c) ↔
          TwoOf parties.buyer parties.seller parties.mostro signers ∨
            parties.seller.x ∈ signers))
  /-- A condition that is built passes the check. -/
  built : ∀ m l conditions, m ≤ l → escrowConditions cdk parties l = .ok conditions →
    verifyConditions conditions parties m = .ok ()

/-- A condition that is built locks to the parties. -/
theorem escrowConditions_locked (hcdk : cdk.Documented) {l : Nat}
    {conditions : SpendingConditions} (hm : m ≤ l)
    (h : escrowConditions cdk parties l = .ok conditions) :
    parties.Distinct ∧
      ∃ c, conditions = .p2pk parties.seller (some c) ∧ Locked parties m c := by
  unfold escrowConditions at h
  simp only [bind_eq_ok, mapError_eq_ok] at h
  obtain ⟨_, hdistinct, c, hc, heq⟩ := h
  cases heq
  refine ⟨ensureDistinct_eq_ok.mp hdistinct, c, rfl, ?_⟩
  rw [hcdk.fields _ _ _ _ _ _ c hc]
  exact {
    pubkeys := ⟨_, rfl, rfl, by simp, by simp⟩
    numSigs := rfl
    sigFlag := rfl
    locktime := ⟨l, rfl, hm⟩
    refundKeys := rfl
    numSigsRefund := rfl }

/-- **The escrow is two of three, with a refund to the seller.** -/
theorem escrow_two_of_three (hcdk : cdk.Documented)
    (h : EscrowParties.fromXonlyHex cdk buyer seller mostro = .ok parties) :
    EscrowRight cdk parties := by
  have hparties := fromXonlyHex_parties hcdk h
  refine ⟨hparties, ?_, ?_⟩
  · intro conditions m hverify
    obtain ⟨_, c, hconditions, hc⟩ := verifyConditions_eq_ok.mp hverify
    obtain ⟨l, hl, hm⟩ := hc.locktime
    refine ⟨c, l, hconditions, hl, hm, fun now signers => ⟨fun hnow => ?_, fun hnow => ?_⟩⟩
    · -- until the locktime is over the refund path is closed
      have hclosed : ¬ c.Refunds now signers := by
        rw [hc.refunds hl]
        omega
      rw [canSpend_some, hc.signatures hparties.distinct, or_iff_left hclosed]
    · rw [canSpend_some, hc.signatures hparties.distinct, hc.refunds hl, and_iff_right hnow]
  · intro m l conditions hm hbuilt
    exact verifyConditions_eq_ok.mpr (escrowConditions_locked hcdk hm hbuilt)

/-- The `x` of the generator and of its double and triple, as texts and as keys. -/
def points : List (String × PublicKey) :=
  [("79be667ef9dcbbac55a06295ce870b07029bfcdb2dce28d959f2815b16f81798",
      ⟨false, 0x79be667ef9dcbbac55a06295ce870b07029bfcdb2dce28d959f2815b16f81798⟩),
    ("c6047f9441ed7d6d3045406e95c07cd85c778e4b8cef3ca7abac09b95c709ee5",
      ⟨false, 0xc6047f9441ed7d6d3045406e95c07cd85c778e4b8cef3ca7abac09b95c709ee5⟩),
    ("f9308a019258c31049344f85f89d5229b531c845836f99b08601f113bce036f9",
      ⟨false, 0xf9308a019258c31049344f85f89d5229b531c845836f99b08601f113bce036f9⟩)]

/-- A library that knows these points, and whose clock says 1000. -/
def pointsLib : Cdk where
  fromHex s := match points.find? fun point => s = "02" ++ point.1 with
    | some point => .ok point.2
    | none => .error "not a valid point"
  newConditions locktime pubkeys refundKeys numSigs sigFlag numSigsRefund :=
    if locktime.any (· < 1000) then .error "Locktime in past"
    else .ok ⟨locktime, pubkeys, refundKeys, numSigs, sigFlag.getD .sigInputs, numSigsRefund⟩
  debug s := "\"" ++ s ++ "\""

theorem pointsLib_documented : pointsLib.Documented where
  even h k hk := by
    simp only [pointsLib] at hk
    split at hk
    · rename_i point hfind
      cases hk
      have heven : ∀ point ∈ points, point.2.odd = false := by decide
      exact heven point (List.mem_of_find?_eq_some hfind)
    · nomatch hk
  fields locktime pubkeys refundKeys numSigs sigFlag numSigsRefund c hc := by
    simp only [pointsLib] at hc
    split at hc
    · nomatch hc
    · exact (Except.ok.inj hc).symm

/-- The library reads the text of a point it knows, with blanks around it or not. -/
theorem pointsLib_key {text : String} {point : String × PublicKey} (hpoint : point ∈ points)
    (htext : Text.trim text = point.1) : pointsLib.xonlyToCashuPubkey text = .ok point.2 := by
  have hdigits : ∀ point ∈ points,
      point.1.utf8ByteSize = 64 ∧ point.1.toList.all isAsciiHexdigit := by decide +kernel
  have hfound : ∀ point ∈ points,
      (points.find? fun known => "02" ++ point.1 = "02" ++ known.1) = some point := by
    decide +kernel
  refine xonlyToCashuPubkey_eq_ok.mpr ⟨by rw [htext]; exact hdigits point hpoint, ?_⟩
  rw [htext]
  simp only [pointsLib, hfound point hpoint]

/-- Three traders' keys, one with a line break after it. -/
theorem three_points_escrow :
    EscrowRight pointsLib
      { buyer := ⟨false, 0x79be667ef9dcbbac55a06295ce870b07029bfcdb2dce28d959f2815b16f81798⟩
        seller := ⟨false, 0xc6047f9441ed7d6d3045406e95c07cd85c778e4b8cef3ca7abac09b95c709ee5⟩
        mostro := ⟨false, 0xf9308a019258c31049344f85f89d5229b531c845836f99b08601f113bce036f9⟩ } := by
  have hparties : EscrowParties.fromXonlyHex pointsLib
      "79be667ef9dcbbac55a06295ce870b07029bfcdb2dce28d959f2815b16f81798\n"
      "c6047f9441ed7d6d3045406e95c07cd85c778e4b8cef3ca7abac09b95c709ee5"
      "f9308a019258c31049344f85f89d5229b531c845836f99b08601f113bce036f9" =
      .ok ⟨_, _, _⟩ :=
    fromXonlyHex_eq_ok.mpr ⟨pointsLib_key (List.mem_cons_self ..) (by decide +kernel),
      pointsLib_key (.tail _ (List.mem_cons_self ..)) (by decide +kernel),
      pointsLib_key (.tail _ (.tail _ (List.mem_cons_self ..))) (by decide +kernel),
      ⟨by decide, by decide, by decide⟩⟩
  exact escrow_two_of_three pointsLib_documented hparties

end MostroApp.Escrow
