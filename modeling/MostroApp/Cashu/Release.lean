import MostroApp.Cashu.Escrow
import Mathlib.Algebra.GroupWithZero.Nat
import Mathlib.Data.List.AList
import Mathlib.Data.List.Forall2

set_option autoImplicit false

/-! # Releasing an escrow (`cashu/escrow.rs`)

One party verifies the escrow's token and signs each of its proofs; another adds its own signatures
to those of the first and redeems the proofs. Signatures are matched by the secret of the proof they
are over, so they match exactly when no two proofs of the token have one secret
(`release_pairs_up_iff`), which nothing that is verified sees to.
-/

namespace MostroApp.Escrow

open Checked Nut11

/-! ## Tokens -/

inductive Witness where
  | p2pk (signatures : List String)
  | htlc (preimage : String) (signatures : Option (List String))
deriving DecidableEq

/-- A proof; its keyset, its point and its DLEQ proof are one text. -/
structure Proof where
  amount : Nat
  secret : String
  witness : Option Witness
  rest : String
deriving DecidableEq

inductive CurrencyUnit where
  | sat
  | other (name : String)
deriving DecidableEq

structure Token where
  mintUrl : Except String String
  unit : Option CurrencyUnit
  proofs : List Proof

inductive State where
  | unspent
  | spent
  | other (name : String)
deriving DecidableEq

/-- What the wallet uses of `cdk` that asks no one: reading a token's text, its value, the
conditions in a secret, what signing makes of a proof, further signatures in a witness. -/
structure TokenLib (Key : Type) where
  parse : String → Except String Token
  value : Token → Except String Nat
  conditions : String → Except String SpendingConditions
  signP2pk : Key → Proof → Except String Proof
  addSignatures : Witness → List String → Witness

/-- What the mint's keysets give for a token: they are loaded, and the token is read with them. -/
structure Keysets where
  load : Except String Unit
  read : Except String Unit

/-- What comes of a verification's requests. -/
structure Checks where
  keysets : Keysets
  dleq : Except String Unit
  states : Except String (List State)

variable {Key : Type}

def stripPrefix (pre s : List Char) : Option (List Char) :=
  if pre.isPrefixOf s then some (s.drop pre.length) else none

def normalizeToken (encoded : String) : String :=
  let trimmed := Text.trimmed encoded.toList
  String.ofList (Text.trimmed (((stripPrefix "cashu://".toList trimmed).orElse
    fun _ => stripPrefix "cashu:".toList trimmed).getD trimmed))

def parseToken (lib : TokenLib Key) (encoded : String) : Except String Token :=
  (lib.parse (normalizeToken encoded)).mapError
    fun e => s!"InvalidEscrowToken: unparseable ({e})"

def proofsOf (keysets : Keysets) (token : Token) : Except String (List Proof) := do
  keysets.load.mapError fun e => s!"CashuMintUnreachable: {e}"
  keysets.read.mapError fun e => s!"InvalidEscrowToken: unreadable proofs ({e})"
  return token.proofs

/-! ## Verifying -/

/-- A mint's address without the slashes at its end. -/
def mintAddress (url : String) : List Char := url.toList.rdropWhile (· = '/')

def debugUnit : Option CurrencyUnit → String
  | none => "None"
  | some .sat => "Some(Sat)"
  | some (.other name) => s!"Some({name})"

/-- One proof of the loop in `verify_escrow_token`. -/
def verifyProof (lib : TokenLib Key) (parties : EscrowParties) (minLocktime : Nat)
    (proof : Proof) : Except String Unit := do
  let conditions ← (lib.conditions proof.secret).mapError
    fun e => s!"InvalidEscrowToken: unreadable secret ({e})"
  verifyConditions conditions parties minLocktime

def verifyState : State → Except String Unit
  | .unspent => .ok ()
  | .spent => .error "CashuEscrowSpent: the mint reports a proof as spent"
  | .other name => .error s!"CashuEscrowPending: the mint reports a proof as {name}"

def verifyEscrowToken (lib : TokenLib Key) (mintUrl : String) (checks : Checks) (encoded : String)
    (parties : EscrowParties) (expectedAmount minLocktime : Nat) : Except String Unit := do
  let token ← parseToken lib encoded
  let tokenMint ← token.mintUrl.mapError fun e => s!"InvalidEscrowToken: no mint ({e})"
  ensure (mintAddress tokenMint = mintAddress mintUrl)
    s!"InvalidEscrowToken: wrong mint ({tokenMint})"
  ensure (token.unit = some .sat)
    s!"InvalidEscrowToken: expected sat, got {debugUnit token.unit}"
  let value ← (lib.value token).mapError fun e => s!"InvalidEscrowToken: unreadable amount ({e})"
  ensure (value = expectedAmount)
    s!"InvalidEscrowToken: expected {expectedAmount} sat, got {value}"
  let proofs ← proofsOf checks.keysets token
  proofs.forM (verifyProof lib parties minLocktime)
  checks.dleq.mapError fun e => s!"CashuTokenUnverified: {e}"
  let states ← checks.states.mapError
    fun e => s!"CashuMintUnreachable: state check failed ({e})"
  states.forM verifyState

/-! ## Signing -/

structure ProofSignature where
  secret : String
  signature : String
deriving DecidableEq

/-- The signature `sign_p2pk` just appended. -/
def lastSignature (proof : Proof) : Except String String :=
  match proof.witness with
  | some (.p2pk signatures) =>
      okOr "CashuSignFailed: witness carries no signature" signatures.getLast?
  | _ => .error "CashuSignFailed: proof has no P2PK witness"

def signProof (lib : TokenLib Key) (key : Key) (proof : Proof) : Except String ProofSignature := do
  let signed ← (lib.signP2pk key proof).mapError fun e => s!"CashuSignFailed: {e}"
  let signature ← lastSignature signed
  return ⟨proof.secret, signature⟩

def signProofs (lib : TokenLib Key) (mintUrl : String) (checks : Checks) (keysets : Keysets)
    (encoded : String) (key : Key) (parties : EscrowParties) (expectedAmount minLocktime : Nat) :
    Except String (List ProofSignature) := do
  verifyEscrowToken lib mintUrl checks encoded parties expectedAmount minLocktime
  let token ← parseToken lib encoded
  let proofs ← proofsOf keysets token
  proofs.mapM (signProof lib key)

/-! ## Combining -/

/-- The peer's signatures by secret. -/
abbrev BySecret := AList fun _ : String => ProofSignature

def indexSignature (bySecret : BySecret) (sig : ProofSignature) : Except String BySecret :=
  if sig.secret ∈ bySecret then
    .error s!"DuplicatePeerSignature: secret {sig.secret} appears more than once"
  else .ok (bySecret.insert sig.secret sig)

def indexSignatures (signatures : List ProofSignature) : Except String BySecret :=
  signatures.foldlM indexSignature ∅

/-- One proof of the loop in `combine_and_redeem`. -/
def combineProof (lib : TokenLib Key) (ownKey : Key) (bySecret : BySecret) (proof : Proof) :
    Except String Proof := do
  let peer ← okOr s!"MissingPeerSignature: none for proof {proof.secret}"
    (bySecret.lookup proof.secret)
  let signed ← (lib.signP2pk ownKey proof).mapError fun e => s!"CashuSignFailed: {e}"
  let witness ← okOr "CashuSignFailed: signing left no witness" signed.witness
  return { signed with witness := some (lib.addSignatures witness [peer.signature]) }

/-- `combine_and_redeem`; the mint's answer to the proofs is `receive`. -/
def combineAndRedeem (lib : TokenLib Key) (keysets : Keysets)
    (receive : List Proof → Except String Nat) (encoded : String) (ownKey : Key)
    (peerSignatures : List ProofSignature) : Except String Nat := do
  let bySecret ← indexSignatures peerSignatures
  let token ← parseToken lib encoded
  let proofs ← proofsOf keysets token
  let signed ← proofs.mapM (combineProof lib ownKey bySecret)
  (receive signed).mapError fun e => s!"CashuRedeemFailed: {e}"

/-! ## Failures -/

/-- The failure names a signature of the peer's that is missing or there twice. -/
def PeerSignatureError (e : String) : Prop :=
  "DuplicatePeerSignature: ".toList <+: e.toList ∨ "MissingPeerSignature: ".toList <+: e.toList

theorem not_peerSignatureError {e : String} {c : Char} (h : e.toList.head? = some c)
    (hd : c ≠ 'D') (hm : c ≠ 'M') : ¬PeerSignatureError e := by
  rintro (⟨rest, heq⟩ | ⟨rest, heq⟩)
  · rw [← heq] at h
    exact hd (Option.some.inj h).symm
  · rw [← heq] at h
    exact hm (Option.some.inj h).symm

/-- A text begins as its marker does. -/
theorem head_append {m rest : String} {c : Char} (h : m.toList.head? = some c) :
    (m ++ rest).toList.head? = some c := by
  rw [String.toList_append, List.head?_append, h]
  rfl

/-- A marker that begins the first part of a text begins the text. -/
theorem marked_append {marker m rest : String} (h : marker.toList <+: m.toList) :
    marker.toList <+: (m ++ rest).toList := by
  rw [String.toList_append]
  exact h.trans (List.prefix_append _ _)

theorem duplicate_error (secret : String) : PeerSignatureError
    s!"DuplicatePeerSignature: secret {secret} appears more than once" :=
  Or.inl (marked_append (marked_append (by decide)))

variable {lib : TokenLib Key} {mintUrl encoded : String} {checks : Checks} {keysets : Keysets}
  {key ownKey : Key} {minLocktime expectedAmount : Nat} {token : Token} {proof : Proof}
  {sig : ProofSignature} {sigs : List ProofSignature} {bySecret : BySecret} {e : String}
  {receive : List Proof → Except String Nat}

theorem parseToken_error (h : parseToken lib encoded = .error e) : ¬PeerSignatureError e := by
  obtain ⟨e', -, rfl⟩ := mapError_eq_error.mp h
  exact not_peerSignatureError (head_append (head_append rfl)) (c := 'I') (by decide) (by decide)

theorem proofsOf_error (h : proofsOf keysets token = .error e) : ¬PeerSignatureError e := by
  unfold proofsOf at h
  rcases bind_eq_error.mp h with h | ⟨_, -, h⟩
  · obtain ⟨e', -, rfl⟩ := mapError_eq_error.mp h
    exact not_peerSignatureError (head_append rfl) (c := 'C') (by decide) (by decide)
  · rcases bind_eq_error.mp h with h | ⟨_, -, h⟩
    · obtain ⟨e', -, rfl⟩ := mapError_eq_error.mp h
      exact not_peerSignatureError (head_append (head_append rfl)) (c := 'I') (by decide)
        (by decide)
    · cases h

theorem proofsOf_ok {proofs : List Proof} (h : proofsOf keysets token = .ok proofs) :
    proofs = token.proofs := by
  unfold proofsOf at h
  obtain ⟨_, -, h⟩ := bind_eq_ok.mp h
  obtain ⟨_, -, h⟩ := bind_eq_ok.mp h
  cases h
  rfl

theorem signP2pk_error {signed : Except String Proof}
    (h : (signed.mapError fun e => s!"CashuSignFailed: {e}") = .error e) :
    ¬PeerSignatureError e := by
  obtain ⟨e', -, rfl⟩ := mapError_eq_error.mp h
  exact not_peerSignatureError (head_append rfl) (c := 'C') (by decide) (by decide)

/-! ## The peer's signatures -/

theorem signProof_secret (h : signProof lib key proof = .ok sig) : sig.secret = proof.secret := by
  unfold signProof at h
  obtain ⟨_, -, h⟩ := bind_eq_ok.mp h
  obtain ⟨_, -, h⟩ := bind_eq_ok.mp h
  cases h
  rfl

/-- **The signatures are over the proofs, in order.** -/
theorem signProofs_secrets {parties : EscrowParties}
    (h : signProofs lib mintUrl checks keysets encoded key parties expectedAmount minLocktime =
      .ok sigs) (htoken : parseToken lib encoded = .ok token) :
    sigs.map (·.secret) = token.proofs.map (·.secret) := by
  unfold signProofs at h
  obtain ⟨_, -, h⟩ := bind_eq_ok.mp h
  obtain ⟨token', htoken', h⟩ := bind_eq_ok.mp h
  obtain ⟨proofs, hproofs, h⟩ := bind_eq_ok.mp h
  obtain rfl := Except.ok.inj (htoken.symm.trans htoken')
  obtain rfl := proofsOf_ok hproofs
  have hsigned := (mapM_eq_ok h).imp fun _ _ hsig => (signProof_secret hsig).symm
  have hmapped : List.Forall₂ Eq (token.proofs.map (·.secret)) (sigs.map (·.secret)) :=
    List.forall₂_map_left_iff.mpr (List.forall₂_map_right_iff.mpr hsigned)
  exact (List.forall₂_eq_eq_eq ▸ hmapped).symm

/-- **What the index is**: every signature under its secret, when no secret is there twice. -/
theorem indexSignatures_spec (bySecret : BySecret) (sigs : List ProofSignature) :
    match sigs.foldlM indexSignature bySecret with
    | .ok indexed => (sigs.map (·.secret)).Nodup ∧ (∀ sig ∈ sigs, sig.secret ∉ bySecret) ∧
        (∀ sig ∈ sigs, indexed.lookup sig.secret = some sig) ∧
        ∀ k ∉ sigs.map (·.secret), indexed.lookup k = bySecret.lookup k
    | .error e => PeerSignatureError e ∧
        ¬((sigs.map (·.secret)).Nodup ∧ ∀ sig ∈ sigs, sig.secret ∉ bySecret) := by
  induction sigs generalizing bySecret with
  | nil => exact ⟨List.nodup_nil, nofun, nofun, fun _ _ => rfl⟩
  | cons sig sigs ih =>
      rw [List.foldlM_cons]
      unfold indexSignature
      by_cases hmem : sig.secret ∈ bySecret
      · rw [if_pos hmem]
        exact ⟨duplicate_error sig.secret, fun h => h.2 sig List.mem_cons_self hmem⟩
      · rw [if_neg hmem]
        have hrest := ih (bySecret.insert sig.secret sig)
        show match sigs.foldlM indexSignature (bySecret.insert sig.secret sig) with
          | .ok indexed => _
          | .error e => _
        have hlater : (∀ sig' ∈ sigs, sig'.secret ∉ bySecret.insert sig.secret sig) ↔
            sig.secret ∉ sigs.map (·.secret) ∧ ∀ sig' ∈ sigs, sig'.secret ∉ bySecret := by
          simp only [AList.mem_insert, not_or, List.mem_map, not_exists, not_and]
          exact ⟨fun h => ⟨fun sig' hsig' => (h sig' hsig').1, fun sig' hsig' => (h sig' hsig').2⟩,
            fun h sig' hsig' => ⟨h.1 sig' hsig', h.2 sig' hsig'⟩⟩
        cases hfold : sigs.foldlM indexSignature (bySecret.insert sig.secret sig) with
        | ok indexed =>
            rw [hfold] at hrest
            obtain ⟨hnodup, hnew, hfound, hkept⟩ := hrest
            obtain ⟨hfirst, hnew⟩ := hlater.mp hnew
            refine ⟨List.nodup_cons.mpr ⟨hfirst, hnodup⟩, ?_, ?_, fun k hk => ?_⟩
            · exact List.forall_mem_cons.mpr ⟨hmem, hnew⟩
            · refine List.forall_mem_cons.mpr ⟨?_, hfound⟩
              rw [hkept sig.secret hfirst, AList.lookup_insert]
            · rw [List.map_cons, List.mem_cons, not_or] at hk
              rw [hkept k hk.2, AList.lookup_insert_ne hk.1]
        | error e =>
            rw [hfold] at hrest
            refine ⟨hrest.1, fun h => hrest.2 ?_⟩
            obtain ⟨hfirst, hnodup⟩ := List.nodup_cons.mp h.1
            exact ⟨hnodup, hlater.mpr ⟨hfirst, (List.forall_mem_cons.mp h.2).2⟩⟩

/-! ## What a combination can fail with -/

/-- A proof whose signature is there fails for nothing of the peer's. -/
theorem combineProof_error (hsig : bySecret.lookup proof.secret = some sig)
    (h : combineProof lib ownKey bySecret proof = .error e) : ¬PeerSignatureError e := by
  unfold combineProof at h
  rw [hsig] at h
  rcases bind_eq_error.mp h with h | ⟨_, -, h⟩
  · cases h
  · rcases bind_eq_error.mp h with h | ⟨signed, -, h⟩
    · exact signP2pk_error h
    · rcases bind_eq_error.mp h with h | ⟨_, -, h⟩
      · cases hw : signed.witness with
        | none =>
            rw [hw] at h
            cases h
            exact not_peerSignatureError (c := 'C') rfl (by decide) (by decide)
        | some witness =>
            rw [hw] at h
            cases h
      · cases h

/-- A combination that has every proof's signature once fails for nothing of the peer's. -/
theorem combineAndRedeem_error (htoken : parseToken lib encoded = .ok token)
    (hpairs : sigs.map (·.secret) = token.proofs.map (·.secret))
    (hnodup : (sigs.map (·.secret)).Nodup)
    (h : combineAndRedeem lib keysets receive encoded ownKey sigs = .error e) :
    ¬PeerSignatureError e := by
  have hindex := indexSignatures_spec ∅ sigs
  unfold combineAndRedeem indexSignatures at h
  cases hfold : sigs.foldlM indexSignature ∅ with
  | error e' =>
      rw [hfold] at hindex
      exact absurd ⟨hnodup, fun _ _ => AList.notMem_empty _⟩ hindex.2
  | ok bySecret =>
      rw [hfold] at hindex h
      obtain ⟨-, -, hfound, -⟩ := hindex
      rcases bind_eq_error.mp h with h | ⟨_, hok, h⟩
      · cases h
      · cases hok
        rcases bind_eq_error.mp h with h | ⟨token', htoken', h⟩
        · exact parseToken_error h
        · obtain rfl := Except.ok.inj (htoken.symm.trans htoken')
          rcases bind_eq_error.mp h with h | ⟨proofs, hproofs, h⟩
          · exact proofsOf_error h
          · obtain rfl := proofsOf_ok hproofs
            rcases bind_eq_error.mp h with h | ⟨_, -, h⟩
            · obtain ⟨proof, hproof, h⟩ := mapM_eq_error h
              -- the signature over this proof's secret
              have hmem : proof.secret ∈ sigs.map (·.secret) := by
                rw [hpairs]
                exact List.mem_map_of_mem hproof
              obtain ⟨sig, hsig, heq⟩ := List.mem_map.mp hmem
              exact combineProof_error (heq ▸ hfound sig hsig) h
            · obtain ⟨e', -, rfl⟩ := mapError_eq_error.mp h
              exact not_peerSignatureError (head_append rfl) (c := 'C') (by decide) (by decide)

/-- Signatures of one secret are refused before anything else. -/
theorem combineAndRedeem_duplicate (hdup : ¬(sigs.map (·.secret)).Nodup) :
    ∃ e, combineAndRedeem lib keysets receive encoded ownKey sigs = .error e ∧
      PeerSignatureError e := by
  have hindex := indexSignatures_spec ∅ sigs
  unfold combineAndRedeem indexSignatures
  cases hfold : sigs.foldlM indexSignature ∅ with
  | error e =>
      rw [hfold] at hindex
      exact ⟨e, rfl, hindex.1⟩
  | ok bySecret =>
      rw [hfold] at hindex
      exact absurd hindex.1 hdup

/-! ## The round trip -/

/-- The signatures are one for each proof, by its secret, and whoever combines them does not fail
for one that is missing or there twice. -/
structure PairsUp (lib : TokenLib Key) (encoded : String) (token : Token)
    (sigs : List ProofSignature) : Prop where
  pairs : sigs.map (·.secret) = token.proofs.map (·.secret)
  distinct : (sigs.map (·.secret)).Nodup
  combines : ∀ keysets receive ownKey e,
    combineAndRedeem lib keysets receive encoded ownKey sigs = .error e → ¬PeerSignatureError e

/-- **The signatures over a verified token pair up with its proofs exactly when these have
different secrets**; otherwise every combination fails for a signature that is there twice. -/
theorem release_pairs_up_iff (lib : TokenLib Key) (mintUrl encoded : String) (checks : Checks)
    (keysets : Keysets) (key : Key) (parties : EscrowParties) (expectedAmount minLocktime : Nat)
    (sigs : List ProofSignature) (token : Token)
    (h : signProofs lib mintUrl checks keysets encoded key parties expectedAmount minLocktime =
      .ok sigs) (htoken : parseToken lib encoded = .ok token) :
    (PairsUp lib encoded token sigs ↔ (token.proofs.map (·.secret)).Nodup) ∧
      (¬(token.proofs.map (·.secret)).Nodup → ∀ keysets receive ownKey,
        ∃ e, combineAndRedeem lib keysets receive encoded ownKey sigs = .error e ∧
          PeerSignatureError e) := by
  have hpairs := signProofs_secrets h htoken
  refine ⟨⟨fun hup => hpairs ▸ hup.distinct, fun hnodup => ?_⟩, fun hdup _ _ _ => ?_⟩
  · rw [← hpairs] at hnodup
    exact ⟨hpairs, hnodup, fun _ _ _ _ => combineAndRedeem_error htoken hpairs hnodup⟩
  · rw [← hpairs] at hdup
    exact combineAndRedeem_duplicate hdup

/-! ## Two proofs of one secret -/

def traders : EscrowParties := ⟨⟨false, 1⟩, ⟨false, 2⟩, ⟨false, 3⟩⟩

/-- A library that reads every text as this token, and every secret as an escrow of the traders. It
signs proofs that no one has signed. -/
def tokenLib (proofs : List Proof) : TokenLib Nat where
  parse _ := .ok ⟨.ok "https://mint", some .sat, proofs⟩
  value token :=
    if token.proofs.Nodup then .ok (token.proofs.map Proof.amount).sum
    else .error "Duplicate proofs"
  conditions _ := .ok (.p2pk ⟨false, 2⟩ (some ⟨some 9, some [⟨false, 1⟩, ⟨false, 3⟩],
    some [⟨false, 2⟩], some 2, .sigInputs, some 1⟩))
  signP2pk _ proof := .ok { proof with witness := some (.p2pk ["signature"]) }
  addSignatures
    | .p2pk signatures, added => .p2pk (signatures ++ added)
    | .htlc preimage signatures, added => .htlc preimage (some (signatures.getD [] ++ added))

def fineKeysets : Keysets := ⟨.ok (), .ok ()⟩

def fineChecks : Checks := ⟨fineKeysets, .ok (), .ok [.unspent, .unspent]⟩

/-- Proofs of two secrets are released. -/
theorem two_secrets_pair_up :
    PairsUp (tokenLib [⟨4, "a", none, ""⟩, ⟨8, "b", none, ""⟩]) "cashuB"
      ⟨.ok "https://mint", some .sat, [⟨4, "a", none, ""⟩, ⟨8, "b", none, ""⟩]⟩
      [⟨"a", "signature"⟩, ⟨"b", "signature"⟩] :=
  (release_pairs_up_iff _ "https://mint" "cashuB" fineChecks fineKeysets 0 traders 12 9 _ _ rfl
    rfl).1.mpr (by decide)

/-- **Two proofs of one secret are verified and signed, and cannot be combined.** -/
theorem one_secret_twice :
    let lib := tokenLib [⟨4, "a", none, ""⟩, ⟨8, "a", none, ""⟩]
    verifyEscrowToken lib "https://mint" fineChecks "cashuB" traders 12 9 = .ok () ∧
      signProofs lib "https://mint" fineChecks fineKeysets "cashuB" 0 traders 12 9 =
        .ok [⟨"a", "signature"⟩, ⟨"a", "signature"⟩] ∧
      ∃ e, combineAndRedeem lib fineKeysets (fun _ => .ok 12) "cashuB" 1
        [⟨"a", "signature"⟩, ⟨"a", "signature"⟩] = .error e ∧ PeerSignatureError e := by
  refine ⟨rfl, rfl, ?_⟩
  exact combineAndRedeem_duplicate (by decide)

end MostroApp.Escrow
