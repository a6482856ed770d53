import MostroApp.Db.Float64
import MostroApp.Lib.Interleaving
import MostroApp.Mostro.Push

set_option autoImplicit false

/-! # The rates a node publishes (`rates.rs`, `api/nostr.rs`)

One process-wide snapshot holds the rates that were fetched last, of whatever node. A call for a
price looks there, fetches the node's event when that does not help, stores what it found and looks
again. Calls for several nodes overwrite each other's snapshot; none of them is answered with
another node's price, or with one that was over when the call was made (`rates_are_own`).
-/

namespace MostroApp.Rates

open Interleaving Transition

/-! ## A rates event -/

structure RatesEvent where
  kind : Nat
  pubkey : String
  tags : List (List String)
  createdAt : UInt64
  content : String
  /-- `Event::verify`. -/
  verified : Bool
  deriving DecidableEq, Repr

/-- The first value of a tag, and none where the first tag of the name has none. -/
def tagValue (e : RatesEvent) (name : String) : Option String :=
  (e.tags.find? fun t => t.head? = some name).bind (·[1]?)

def RATES_KIND : Nat := 30078

def RATES_D_TAG : String := "mostro-rates"

def MAX_LIFETIME_SECS : Int64 := 3600

/-- The filters of `select_rates_event`. -/
def authentic (pubkey : String) (e : RatesEvent) : Bool :=
  e.kind = RATES_KIND && e.pubkey = pubkey && tagValue e "d" = some RATES_D_TAG && e.verified

def newer (best : Option RatesEvent) (e : RatesEvent) : Option RatesEvent :=
  match best with
  | some b => if b.createdAt ≤ e.createdAt then some e else some b
  | none => some e

/-- `Iterator::max_by_key` on `created_at`: the last of the greatest. -/
def newest (events : List RatesEvent) : Option RatesEvent := events.foldl newer none

def selectRatesEvent (events : List RatesEvent) (pubkey : String) : Option RatesEvent :=
  newest (events.filter (authentic pubkey))

def expiresAt (createdAt : Int64) (expirationTag : Option Int64) : Int64 :=
  let ceiling := Push.saturatingAdd createdAt MAX_LIFETIME_SECS
  match expirationTag with
  | some tag => if tag ≤ ceiling then tag else ceiling
  | none => ceiling

/-- When an event's rates are over. -/
def RatesEvent.expires (e : RatesEvent) : Int64 :=
  expiresAt e.createdAt.toInt64 ((tagValue e "expiration").bind fun v =>
    (Numeral.parseSigned (2 ^ 63) v.toList).map Int64.ofInt)

/-! ## The payload -/

/-- `Value::as_f64`. -/
def asF64 : Json → Option Db.F64
  | .num q => some (Db.F64.rounded q)
  | _ => none

/-- A price that can be used. -/
def usable (price : Db.F64) : Bool := price.isFinite && Db.F64.lt (.finite 0) price

section Payload

-- `serde_json::from_str` and `str::to_uppercase`
variable (parse : String → Option Json) (toUppercase : String → String)

/-- The fields of the payload's `BTC` object. -/
def table (content : String) : Option (List (String × Json)) :=
  ((parse content).bind (Json.get "BTC")).bind fun
    | .obj fields => some fields
    | _ => none

/-- The entries of the table, and `none` without a usable one. -/
def parseRatesContent (content : String) : Option (List (String × Db.F64)) :=
  (table parse content).bind fun fields =>
    let rates := (fields.filter (·.1 ≠ "BTC")).filterMap fun field =>
      ((asF64 field.2).filter usable).map fun price => (toUppercase field.1, price)
    if rates = [] then none else some rates

/-- The payload has a usable price under a code that reads the same in capitals. -/
def Quotes (e : RatesEvent) (fiatCode : String) (price : Db.F64) : Prop :=
  ∃ fields, table parse e.content = some fields ∧ ∃ code value, (code, value) ∈ fields ∧
    code ≠ "BTC" ∧ toUppercase code = toUppercase fiatCode ∧ asF64 value = some price ∧
      usable price = true

end Payload

/-! ## The snapshot and its callers -/

structure Snapshot where
  node : String
  rates : List (String × Db.F64)
  expiresAt : Int64

/-- The value a map built of the entries has for a key: that of the last of them. -/
def lookup (rates : List (String × Db.F64)) (code : String) : Option Db.F64 :=
  ((rates.filter (·.1 = code)).getLast?).map (·.2)

/-- A call for a price, the moment it was made, and its answer. -/
structure Reply where
  node : String
  fiatCode : String
  now : Int64
  answer : Except String (Option Db.F64)
  deriving DecidableEq

/-- The snapshot. Beside it the answers of the relays so far, and those of the calls. -/
structure Board where
  snapshot : Option Snapshot := none
  heard : List (List RatesEvent) := []
  replies : List Reply := []

/-- A call of `fetch_exchange_rate` and where it stands. -/
structure Call where
  node : String
  fiatCode : String
  now : Int64
  deriving DecidableEq

inductive RateTask where
  | looks (call : Call)
  | fetches (call : Call) (pubkey : String)
  | stores (call : Call) (rates : List (String × Db.F64)) (expiresAt : Int64)
  | clears (call : Call)
  | reads (call : Call)

/-- Whether there is a pool, and what the relays say. -/
structure RateOracle where
  pool : Bool := true
  fetched : Except String (List RatesEvent) := .ok []

def Board.reply (s : Board) (call : Call) (answer : Except String (Option Db.F64)) : Board :=
  { s with replies := ⟨call.node, call.fiatCode, call.now, answer⟩ :: s.replies }

variable (parse : String → Option Json) (toUppercase : String → String)
  (fromHex : String → Except String String)

def Board.cachedRate (s : Board) (call : Call) : Option Db.F64 :=
  s.snapshot.bind fun snapshot =>
    if snapshot.node ≠ call.node ∨ snapshot.expiresAt ≤ call.now then none
    else lookup snapshot.rates (toUppercase call.fiatCode)

/-- What is done about the relays' answer. -/
def judge (call : Call) (pubkey : String) (events : List RatesEvent) : RateTask :=
  match selectRatesEvent events pubkey with
  | none => .clears call
  | some e =>
      if e.expires ≤ call.now then .clears call
      else match parseRatesContent parse toUppercase e.content with
        | none => .clears call
        | some rates => .stores call rates e.expires

def RateTask.step (w : RateOracle) : RateTask → Board → Board × Option RateTask
  | .looks call, s =>
      match s.cachedRate toUppercase call with
      | some rate => (s.reply call (.ok (some rate)), none)
      | none =>
          if !w.pool then (s.reply call (.error "NotInitialized"), none)
          else match fromHex call.node with
            | .error e => (s.reply call (.error ("invalid pubkey hex: " ++ e)), none)
            | .ok pubkey => (s, some (.fetches call pubkey))
  | .fetches call pubkey, s =>
      match w.fetched with
      | .error e => (s.reply call (.error ("fetch_events failed: " ++ e)), none)
      | .ok events =>
          ({ s with heard := events :: s.heard }, some (judge parse toUppercase call pubkey events))
  | .stores call rates expiresAt, s =>
      ({ s with snapshot := some ⟨call.node, rates, expiresAt⟩ }, some (.reads call))
  | .clears call, s => ({ s with snapshot := none }.reply call (.ok none), none)
  | .reads call, s => (s.reply call (.ok (s.cachedRate toUppercase call)), none)

/-- Any number of calls. -/
def rateProg : Prog Board RateTask RateOracle Empty where
  enter
    | .looks _ => true
    | _ => false
  tstep w p s := some (p.step parse toUppercase fromHex w s)
  act a _ := a.elim

/-! ## What is found -/

variable {parse toUppercase fromHex} {events : List RatesEvent} {e : RatesEvent}
  {heard : List (List RatesEvent)} {fiatCode : String} {price : Db.F64} {pubkey : String}

/-- The better of two events is one of them, and as new as both. -/
theorem newer_spec (best : Option RatesEvent) (e : RatesEvent) :
    ∃ b, newer best e = some b ∧ (b = e ∨ best = some b) ∧ e.createdAt ≤ b.createdAt ∧
      ∀ b', best = some b' → b'.createdAt ≤ b.createdAt := by
  cases best with
  | none => exact ⟨e, rfl, .inl rfl, UInt64.le_refl _, fun b' hb' => (nomatch hb')⟩
  | some b =>
      by_cases hle : b.createdAt ≤ e.createdAt
      · refine ⟨e, if_pos hle, .inl rfl, UInt64.le_refl _, fun b' hb' => ?_⟩
        obtain rfl := Option.some.inj hb'
        exact hle
      · refine ⟨b, if_neg hle, .inr rfl, UInt64.le_of_lt (UInt64.not_le.mp hle), fun b' hb' => ?_⟩
        obtain rfl := Option.some.inj hb'
        exact UInt64.le_refl _

theorem foldl_newer {best : Option RatesEvent} (h : events.foldl newer best = some e) :
    (e ∈ events ∨ best = some e) ∧ (∀ e' ∈ events, e'.createdAt ≤ e.createdAt) ∧
      ∀ b, best = some b → b.createdAt ≤ e.createdAt := by
  induction events generalizing best with
  | nil =>
      have h : best = some e := h
      refine ⟨.inr h, fun e' he' => (nomatch he'), fun b hb => ?_⟩
      obtain rfl := Option.some.inj (hb.symm.trans h)
      exact UInt64.le_refl _
  | cons x events ih =>
      obtain ⟨b, hb, hone, hx, hbest⟩ := newer_spec best x
      rw [List.foldl_cons, hb] at h
      obtain ⟨hmem, hnew, hb'⟩ := ih h
      have hbe := hb' b rfl
      refine ⟨?_, fun e' he' => ?_, fun b' hb' => UInt64.le_trans (hbest b' hb') hbe⟩
      · rcases hmem with hmem | hsome
        · exact .inl (List.mem_cons_of_mem _ hmem)
        · obtain rfl := Option.some.inj hsome
          rcases hone with rfl | hold
          · exact .inl List.mem_cons_self
          · exact .inr hold
      · rcases List.mem_cons.mp he' with rfl | hrest
        · exact UInt64.le_trans hx hbe
        · exact hnew e' hrest

theorem newest_spec (h : newest events = some e) :
    e ∈ events ∧ ∀ e' ∈ events, e'.createdAt ≤ e.createdAt := by
  obtain ⟨hmem, hnewest, -⟩ := foldl_newer h
  exact ⟨hmem.resolve_right nofun, hnewest⟩

theorem select_spec (h : selectRatesEvent events pubkey = some e) :
    e ∈ events ∧ authentic pubkey e = true ∧
      ∀ e' ∈ events, authentic pubkey e' = true → e'.createdAt ≤ e.createdAt := by
  obtain ⟨hmem, hnewest⟩ := newest_spec h
  obtain ⟨hin, hauth⟩ := List.mem_filter.mp hmem
  exact ⟨hin, hauth, fun e' he' hauth' => hnewest e' (List.mem_filter.mpr ⟨he', hauth'⟩)⟩

theorem RatesEvent.expires_le (e : RatesEvent) :
    e.expires ≤ Push.saturatingAdd e.createdAt.toInt64 MAX_LIFETIME_SECS := by
  unfold RatesEvent.expires expiresAt
  dsimp only
  split
  · split
    · next hle => exact hle
    · exact Int64.le_refl _
  · exact Int64.le_refl _

theorem mem_of_lookup {rates : List (String × Db.F64)} {code : String}
    (h : lookup rates code = some price) : (code, price) ∈ rates := by
  obtain ⟨r, hr, rfl⟩ := Option.map_eq_some_iff.mp h
  obtain ⟨hmem, hcode⟩ := List.mem_filter.mp (List.mem_of_getLast? hr)
  have hcode : r.1 = code := by simpa using hcode
  exact hcode ▸ hmem

theorem quotes_of_parse {rates : List (String × Db.F64)}
    (h : parseRatesContent parse toUppercase e.content = some rates)
    (hprice : lookup rates (toUppercase fiatCode) = some price) :
    Quotes parse toUppercase e fiatCode price := by
  obtain ⟨fields, hfields, h⟩ := Option.bind_eq_some_iff.mp h
  dsimp only at h
  split at h
  · cases h
  · obtain rfl := Option.some.inj h
    obtain ⟨field, hfield, hmap⟩ := List.mem_filterMap.mp (mem_of_lookup hprice)
    obtain ⟨hin, hne⟩ := List.mem_filter.mp hfield
    obtain ⟨value, hvalue, hpair⟩ := Option.map_eq_some_iff.mp hmap
    obtain ⟨hcode, rfl⟩ := Prod.mk.inj hpair
    obtain ⟨hvalue, husable⟩ := Option.filter_eq_some_iff.mp hvalue
    exact ⟨fields, hfields, field.1, field.2, hin, by simpa using hne, hcode, hvalue, husable⟩

/-! ## Every interleaving -/

variable (fromHex) in
/-- It is the newest of the node's own events in some answer of the relays. -/
def Published (heard : List (List RatesEvent)) (node : String) (e : RatesEvent) : Prop :=
  ∃ events ∈ heard, ∃ pubkey, fromHex node = .ok pubkey ∧ e ∈ events ∧
    authentic pubkey e = true ∧ ∀ e' ∈ events, authentic pubkey e' = true →
      e'.createdAt ≤ e.createdAt

theorem Published.mono {node : String} (h : Published fromHex heard node e)
    (events : List RatesEvent) : Published fromHex (events :: heard) node e := by
  obtain ⟨events', hin, h⟩ := h
  exact ⟨events', List.mem_cons_of_mem _ hin, h⟩

variable (parse toUppercase fromHex) in
/-- The rates are those of an event of the node's. -/
def Backed (heard : List (List RatesEvent)) (node : String) (rates : List (String × Db.F64))
    (expires : Int64) : Prop :=
  ∃ e, Published fromHex heard node e ∧ e.expires = expires ∧
    parseRatesContent parse toUppercase e.content = some rates

variable (parse toUppercase fromHex) in
/-- The price is one that an event of the call's own node quotes, and the event was not over when
the call was made, which it is an hour after it was made at the latest. -/
def Own (heard : List (List RatesEvent)) (r : Reply) (price : Db.F64) : Prop :=
  ∃ e, Published fromHex heard r.node e ∧ r.now < e.expires ∧
    e.expires ≤ Push.saturatingAdd e.createdAt.toInt64 MAX_LIFETIME_SECS ∧
    Quotes parse toUppercase e r.fiatCode price

variable (parse toUppercase fromHex) in
structure Board.Right (s : Board) : Prop where
  snapshot : ∀ x, s.snapshot = some x →
    Backed parse toUppercase fromHex s.heard x.node x.rates x.expiresAt
  replies : ∀ r ∈ s.replies, ∀ price, r.answer = .ok (some price) →
    Own parse toUppercase fromHex s.heard r price

variable (parse toUppercase fromHex) in
/-- What a call has found out. -/
def RateTask.Knows : RateTask → Board → Prop
  | .fetches call pubkey, _ => fromHex call.node = .ok pubkey
  | .stores call rates expires, s =>
      Backed parse toUppercase fromHex s.heard call.node rates expires
  | _, _ => True

variable {s : Board} {call : Call} {answer : Except String (Option Db.F64)}

/-- A price in the snapshot is the node's own. -/
theorem Board.Right.own (h : s.Right parse toUppercase fromHex)
    (hprice : s.cachedRate toUppercase call = some price) :
    Own parse toUppercase fromHex s.heard ⟨call.node, call.fiatCode, call.now, answer⟩ price := by
  obtain ⟨x, hx, hprice⟩ := Option.bind_eq_some_iff.mp hprice
  split at hprice
  · cases hprice
  · next hgood =>
      simp only [ne_eq, not_or, not_not, Int64.not_le] at hgood
      obtain ⟨hnode, hnow⟩ := hgood
      obtain ⟨e, hpub, hexpires, hparse⟩ := h.snapshot x hx
      exact ⟨e, hnode ▸ hpub, hexpires ▸ hnow, e.expires_le, quotes_of_parse hparse hprice⟩

theorem Board.Right.reply (h : s.Right parse toUppercase fromHex)
    (hown : ∀ price, answer = .ok (some price) →
      Own parse toUppercase fromHex s.heard ⟨call.node, call.fiatCode, call.now, answer⟩ price) :
    (s.reply call answer).Right parse toUppercase fromHex := by
  refine ⟨h.snapshot, fun r hr price hprice => ?_⟩
  rcases List.mem_cons.mp hr with rfl | hold
  · exact hown price hprice
  · exact h.replies r hold price hprice

theorem Board.Right.hear (h : s.Right parse toUppercase fromHex) (events : List RatesEvent) :
    Board.Right parse toUppercase fromHex { s with heard := events :: s.heard } := by
  refine ⟨fun x hx => ?_, fun r hr price hprice => ?_⟩
  · obtain ⟨e, hpub, hrest⟩ := h.snapshot x hx
    exact ⟨e, hpub.mono events, hrest⟩
  · obtain ⟨e, hpub, hrest⟩ := h.replies r hr price hprice
    exact ⟨e, hpub.mono events, hrest⟩

variable {w : RateOracle} {p : RateTask}

/-- What the relays have said is only added to. -/
theorem RateTask.step_heard : (p.step parse toUppercase fromHex w s).1.heard = s.heard ∨
    ∃ events, (p.step parse toUppercase fromHex w s).1.heard = events :: s.heard := by
  cases p with
  | looks call =>
      simp only [RateTask.step]
      split
      · exact .inl rfl
      · split
        · exact .inl rfl
        · split <;> exact .inl rfl
  | fetches call pubkey =>
      simp only [RateTask.step]
      split
      · exact .inl rfl
      · exact .inr ⟨_, rfl⟩
  | stores | clears | reads => exact .inl rfl

theorem RateTask.Knows.mono {t : Board} (h : p.Knows parse toUppercase fromHex s)
    (hheard : t.heard = s.heard ∨ ∃ events, t.heard = events :: s.heard) :
    p.Knows parse toUppercase fromHex t := by
  cases p with
  | stores call rates expires =>
      obtain ⟨e, hpub, hrest⟩ := h
      rcases hheard with hsame | ⟨events, hadded⟩
      · exact ⟨e, hsame ▸ hpub, hrest⟩
      · exact ⟨e, hadded ▸ hpub.mono events, hrest⟩
  | fetches => exact h
  | looks | clears | reads => trivial

/-- A call that goes on to store has found the newest event of its node. -/
theorem judge_knows (hkey : fromHex call.node = .ok pubkey) (hheard : events ∈ s.heard) :
    (judge parse toUppercase call pubkey events).Knows parse toUppercase fromHex s := by
  unfold judge
  split
  · trivial
  · next e hselect =>
      split
      · trivial
      · split
        · trivial
        · next rates hparse =>
            obtain ⟨hin, hauth, hnewest⟩ := select_spec hselect
            exact ⟨e, ⟨events, hheard, pubkey, hkey, hin, hauth, hnewest⟩, rfl, hparse⟩

theorem RateTask.step_right (h : s.Right parse toUppercase fromHex)
    (hp : p.Knows parse toUppercase fromHex s) :
    (p.step parse toUppercase fromHex w s).1.Right parse toUppercase fromHex := by
  cases p with
  | looks call =>
      simp only [RateTask.step]
      split
      -- The snapshot answers only for the node it was read for.
      · next rate hrate =>
          refine h.reply fun price hprice => ?_
          cases hprice
          exact h.own hrate
      · split
        · exact h.reply fun price hprice => (nomatch hprice)
        · split
          · exact h.reply fun price hprice => (nomatch hprice)
          · exact h
  | fetches call pubkey =>
      simp only [RateTask.step]
      split
      · exact h.reply fun price hprice => (nomatch hprice)
      · exact h.hear _
  -- What the task has judged of its rates is what the snapshot needs.
  | stores call rates expires =>
      refine ⟨fun x hx => ?_, h.replies⟩
      obtain rfl := Option.some.inj hx
      exact hp
  | clears call =>
      refine Board.Right.reply ⟨fun x hx => (nomatch hx), h.replies⟩ fun price hprice => ?_
      cases hprice
  | reads call =>
      refine h.reply fun price hprice => ?_
      have hprice : s.cachedRate toUppercase call = some price := by
        simpa using hprice
      exact h.own hprice

theorem RateTask.step_knows {q : RateTask} (hp : p.Knows parse toUppercase fromHex s)
    (hq : (p.step parse toUppercase fromHex w s).2 = some q) :
    q.Knows parse toUppercase fromHex (p.step parse toUppercase fromHex w s).1 := by
  cases p with
  | looks call =>
      simp only [RateTask.step] at hq
      split at hq
      · cases hq
      · split at hq
        · cases hq
        · split at hq
          · cases hq
          · next pubkey hkey =>
              obtain rfl := Option.some.inj hq
              exact hkey
  | fetches call pubkey =>
      simp only [RateTask.step] at hq ⊢
      split at hq
      · cases hq
      · next events hfetched =>
          obtain rfl := Option.some.inj hq
          exact judge_knows hp List.mem_cons_self
  | stores call rates expires =>
      obtain rfl := Option.some.inj hq
      trivial
  | clears | reads => cases hq

theorem rateOutline : Outline (rateProg parse toUppercase fromHex) (fun _ _ => True)
    (Board.Right parse toUppercase fromHex) (RateTask.Knows parse toUppercase fromHex) := by
  constructor
  · intro c i p _ _ henter _
    cases p with
    | looks => trivial
    | _ => cases henter
  · intro c i w p s q hc _ hp hs
    obtain ⟨rfl, -⟩ := Prod.mk.inj (Option.some.inj hs)
    exact RateTask.step_right hc.shared (hc.threads i p hp)
  · intro c i w p s q hc _ hp hs
    obtain ⟨rfl, hq⟩ := Prod.mk.inj (Option.some.inj hs)
    exact RateTask.step_knows (hc.threads i p hp) hq
  · intro c i w p s q j r hc _ hp hs _ hr
    obtain ⟨rfl, -⟩ := Prod.mk.inj (Option.some.inj hs)
    exact (hc.threads j r hr).mono RateTask.step_heard
  · exact fun c a => a.elim
  · exact fun c a => a.elim

/-- **Prices are the node's own.** However calls for any nodes run into each other, one that is
answered with a price has it from the newest event, among those some relays' answer held, that its
own node signed as its rates; the event quotes that price for the currency, the price is positive,
and the event was not over when the call was made. -/
theorem rates_are_own {ls : List (Label RateTask RateOracle Empty)} {c : Pool Board RateTask}
    (hr : run (rateProg parse toUppercase fromHex).next (Pool.idle {}) ls = some c)
    {r : Reply} (hreply : r ∈ c.shared.replies) (hprice : r.answer = .ok (some price)) :
    Own parse toUppercase fromHex c.shared.heard r price := by
  have hstart : Board.Right parse toUppercase fromHex {} :=
    ⟨fun x hx => (nomatch hx), fun r hr => (nomatch hr)⟩
  exact (rateOutline.run_inv (poolInv_idle hstart) (along_true _ _) hr).shared.replies r hreply
    price hprice

/-- What a JSON parser makes of one payload. -/
def parsePayload (content : String) : Option Json :=
  if content = "payload" then
    some (.obj [("BTC", .obj [("BTC", .num 1), ("usd", .num 50000), ("EUR", .str "?")])])
  else none

/-- The event of a node, which expires ten minutes after it was made. -/
def ratesEvent (pubkey : String) (createdAt : UInt64) (expiration : String) : RatesEvent :=
  ⟨30078, pubkey, [["d", "mostro-rates"], ["expiration", expiration]], createdAt, "payload", true⟩

/-- While the call for `a` is at the relays, the one for `b` stores; the second call for `b` is
answered from the snapshot. The relays still have an older event of `b`'s. -/
def twoNodes : List (Label RateTask RateOracle Empty) :=
  [.spawn 0 (.looks ⟨"a", "USD", 1000⟩), .step 0 {}, .spawn 1 (.looks ⟨"b", "usd", 1000⟩),
    .step 1 {}, .step 0 { fetched := .ok [ratesEvent "a" 900 "1500"] }, .step 0 {},
    .step 1 { fetched := .ok [ratesEvent "b" 950 "1550", ratesEvent "b" 800 "1400"] }, .step 1 {},
    .step 0 {}, .step 1 {}, .spawn 2 (.looks ⟨"b", "USD", 1549⟩), .step 2 {}]

theorem rates_are_own_shared :
    ∃ c, run (rateProg parsePayload Text.asciiUppercase .ok).next (Pool.idle {}) twoNodes =
        some c ∧
      c.shared.replies = [⟨"b", "USD", 1549, .ok (some (.finite 50000))⟩,
        ⟨"b", "usd", 1000, .ok (some (.finite 50000))⟩, ⟨"a", "USD", 1000, .ok none⟩] ∧
      Own parsePayload Text.asciiUppercase .ok c.shared.heard
        ⟨"b", "USD", 1549, .ok (some (.finite 50000))⟩ (.finite 50000) := by
  have hreplies : (run (rateProg parsePayload Text.asciiUppercase .ok).next (Pool.idle {})
      twoNodes).map (fun c => c.shared.replies) =
        some [⟨"b", "USD", 1549, .ok (some (.finite 50000))⟩,
          ⟨"b", "usd", 1000, .ok (some (.finite 50000))⟩, ⟨"a", "USD", 1000, .ok none⟩] := by
    decide +kernel
  obtain ⟨c, hr, hlist⟩ := Option.map_eq_some_iff.mp hreplies
  refine ⟨c, hr, hlist, rates_are_own hr ?_ rfl⟩
  rw [hlist]
  exact List.mem_cons_self

end MostroApp.Rates
