import Mathlib.Data.List.Sort

set_option autoImplicit false

/-! # Chat room previews (`features/chat/providers/chat_providers.dart`)

A room of the chat list is built from the stored messages of a trade, and messages that arrive are
folded into it. A message older than the preview shown, or one of its time and content, is passed
over. So the preview follows the newest message whatever the order of arrival, and the unread count
is that of the stored messages less the unread ones passed over (`preview_follows_history`).
-/

namespace MostroApp.ChatRooms

/-! ## Messages and rooms -/

inductive MessageType where
  | peer
  | admin
  | system
deriving DecidableEq, Repr

structure ChatMessage where
  id : String
  content : String
  messageType : MessageType := .peer
  isMine : Bool := false
  isRead : Bool := false
  createdAt : Int
deriving DecidableEq, Repr

/-- Not yet read, and not ours. -/
def ChatMessage.unread (m : ChatMessage) : Bool := !m.isRead && !m.isMine

structure ChatRoomState where
  orderId : String
  peerPubkey : String
  peerHandle : String
  peerIconIndex : Nat
  peerColorHue : Nat
  isSelling : Bool
  lastMessage : Option String := none
  lastMessageIsOwn : Bool := false
  lastMessageAt : Int := 0
  unreadCount : Nat := 0
deriving DecidableEq, Repr

inductive TradeRole where
  | buyer
  | seller
deriving DecidableEq, Repr

structure TradeInfo where
  orderId : String
  counterpartyPubkey : String
  role : TradeRole
deriving DecidableEq, Repr

structure NymIdentity where
  pseudonym : String
  iconIndex : Nat
  colorHue : Nat
deriving DecidableEq, Repr

/-- `get_messages`: the messages of a trade by time, and in their order where it is the same. -/
def getMessages (stored : List ChatMessage) : List ChatMessage :=
  stored.insertionSort (·.createdAt ≤ ·.createdAt)

/-- The identity shown for a pubkey (in hex) whose identity cannot be derived; there is none when
it has no six characters. -/
def fallbackIdentity (peerPubkey : String) : Option NymIdentity :=
  let hash := peerPubkey.toList.foldl (fun a c => a ^^^ c.toNat) 0
  if peerPubkey.length < 6 then none
  else some
    { pseudonym := "Trader " ++ String.ofList (peerPubkey.toList.take 6)
      iconIndex := hash % 37
      colorHue := hash % 360 }

/-- The room of a trade, from its peer messages in the order they come in. -/
def roomOf (trade : TradeInfo) (nym : NymIdentity) (msgs : List ChatMessage) : ChatRoomState :=
  let last := msgs.getLast?
  { orderId := trade.orderId
    peerPubkey := trade.counterpartyPubkey
    peerHandle := nym.pseudonym
    peerIconIndex := min nym.iconIndex 36
    peerColorHue := min nym.colorHue 359
    isSelling := trade.role = .seller
    lastMessage := last.map (·.content)
    lastMessageIsOwn := (last.map (·.isMine)).getD false
    lastMessageAt := (last.map (·.createdAt)).getD 0
    unreadCount := msgs.countP (·.unread) }

/-- `tradeInfoToChatRoom`: `identity` is what `getNymIdentity` answers, `fetched` what `getMessages`
does. The outer option tells an exception, the inner one that there is no room. -/
def tradeInfoToChatRoom (trade : TradeInfo) (identity : Option NymIdentity)
    (fetched : Option (List ChatMessage)) : Option (Option ChatRoomState) :=
  if trade.counterpartyPubkey = "" then some none
  else do
    let nym ← identity <|> fallbackIdentity trade.counterpartyPubkey
    let msgs := (fetched.getD []).filter (·.messageType = .peer)
    pure (some (roomOf trade nym msgs))

namespace ChatRoomState

/-- The message is older than the preview, or repeats its time and content. -/
def stale (room : ChatRoomState) (msg : ChatMessage) : Bool :=
  msg.createdAt < room.lastMessageAt ||
    (msg.createdAt = room.lastMessageAt && room.lastMessage = some msg.content)

/-- A room after a message for it. -/
def fold (room : ChatRoomState) (msg : ChatMessage) : ChatRoomState :=
  if room.stale msg then room
  else
    { room with
      lastMessage := some msg.content
      lastMessageIsOwn := msg.isMine
      lastMessageAt := msg.createdAt
      unreadCount :=
        if msg.isMine || msg.isRead then room.unreadCount else room.unreadCount + 1 }

end ChatRoomState

/-- `ChatRoomsNotifier.foldIncoming`. -/
def foldIncoming (orderId : String) (rooms : List ChatRoomState) (msg : ChatMessage) :
    List ChatRoomState :=
  if msg.messageType ≠ .peer then rooms
  else
    match rooms.findIdx? (·.orderId = orderId) with
    | none => rooms
    | some index => rooms.modify index (·.fold msg)

/-- The messages that are passed over as they arrive. -/
def passedOver (room : ChatRoomState) : List ChatMessage → List ChatMessage
  | [] => []
  | msg :: msgs =>
      if room.stale msg then msg :: passedOver room msgs else passedOver (room.fold msg) msgs

/-! ## The room of an order -/

variable {orderId : String} {room room' : ChatRoomState} {rooms : List ChatRoomState}
  {msg : ChatMessage} {msgs seen ls : List ChatMessage} {trade : TradeInfo} {nym : NymIdentity}

@[simp] theorem ChatRoomState.orderId_fold (room : ChatRoomState) (msg : ChatMessage) :
    (room.fold msg).orderId = room.orderId := by
  unfold fold
  split <;> rfl

/-- A message is folded into the first room of its order. -/
theorem find?_foldIncoming (hpeer : msg.messageType = .peer)
    (h : rooms.find? (·.orderId = orderId) = some room) :
    (foldIncoming orderId rooms msg).find? (·.orderId = orderId) = some (room.fold msg) := by
  have hmodify : ∀ rooms : List ChatRoomState, rooms.find? (·.orderId = orderId) = some room →
      ∃ index, rooms.findIdx? (·.orderId = orderId) = some index ∧
        (rooms.modify index (·.fold msg)).find? (·.orderId = orderId) = some (room.fold msg) := by
    intro rooms
    induction rooms with
    | nil => exact nofun
    | cons r rooms ih =>
        intro h
        by_cases hr : r.orderId = orderId
        · rw [List.find?_cons_of_pos (by simpa using hr)] at h
          obtain rfl := Option.some.inj h
          refine ⟨0, by simp [List.findIdx?_cons, hr], ?_⟩
          rw [List.modify_zero_cons]
          exact List.find?_cons_of_pos (by simpa using hr)
        · rw [List.find?_cons_of_neg (by simpa using hr)] at h
          obtain ⟨index, hindex, hfind⟩ := ih h
          refine ⟨index + 1, by simp [List.findIdx?_cons, hr, hindex], ?_⟩
          rw [List.modify_succ_cons, List.find?_cons_of_neg (by simpa using hr)]
          exact hfind
  obtain ⟨index, hindex, hfind⟩ := hmodify rooms h
  unfold foldIncoming
  rw [if_neg (not_not.mpr hpeer), hindex]
  exact hfind

theorem find?_foldl_foldIncoming (hpeer : ∀ m ∈ ls, m.messageType = .peer)
    (h : rooms.find? (·.orderId = orderId) = some room) :
    (ls.foldl (foldIncoming orderId) rooms).find? (·.orderId = orderId) =
      some (ls.foldl ChatRoomState.fold room) := by
  induction ls generalizing rooms room with
  | nil => exact h
  | cons msg ls ih =>
      refine ih (fun m hm => hpeer m (List.mem_cons_of_mem _ hm)) ?_
      exact find?_foldIncoming (hpeer msg List.mem_cons_self) h

/-! ## What a room shows -/

/-- The room shows a newest of the messages seen, and nothing when there were none. -/
structure Shows (room : ChatRoomState) (seen : List ChatMessage) : Prop where
  newest : ∀ m ∈ seen, m.createdAt ≤ room.lastMessageAt
  shown : (∃ m ∈ seen, room.lastMessage = some m.content ∧ room.lastMessageIsOwn = m.isMine ∧
      room.lastMessageAt = m.createdAt) ∨
    seen = [] ∧ room.lastMessage = none ∧ room.lastMessageIsOwn = false ∧ room.lastMessageAt = 0

/-- The last of the messages by time is a newest one. -/
theorem le_getLast_getMessages {last : ChatMessage} (h : (getMessages seen).getLast? = some last)
    {m : ChatMessage} (hm : m ∈ seen) : m.createdAt ≤ last.createdAt := by
  obtain ⟨before, hbefore⟩ := List.getLast?_eq_some_iff.mp h
  have hsorted : (getMessages seen).Pairwise (·.createdAt ≤ ·.createdAt) :=
    List.pairwise_insertionSort _ _
  have hmem : m ∈ getMessages seen := (List.mem_insertionSort _).mpr hm
  rw [hbefore] at hsorted hmem
  rcases List.mem_append.mp hmem with hm | hm
  · exact (List.pairwise_append.mp hsorted).2.2 m hm last List.mem_cons_self
  · obtain rfl := List.mem_singleton.mp hm
    exact Int.le_refl _

/-- **A room that is built shows a newest message** of those stored. -/
theorem shows_roomOf (trade : TradeInfo) (nym : NymIdentity) (stored : List ChatMessage) :
    Shows (roomOf trade nym (getMessages stored)) stored := by
  cases hlast : (getMessages stored).getLast? with
  | none =>
      have hnil : stored = [] := by
        refine List.eq_nil_iff_forall_not_mem.mpr fun m hm => ?_
        have hmem : m ∈ getMessages stored := (List.mem_insertionSort _).mpr hm
        rw [List.getLast?_eq_none_iff.mp hlast] at hmem
        cases hmem
      subst hnil
      exact ⟨nofun, Or.inr ⟨rfl, rfl, rfl, rfl⟩⟩
  | some last =>
      have hat : (roomOf trade nym (getMessages stored)).lastMessageAt = last.createdAt := by
        simp only [roomOf, hlast, Option.map_some, Option.getD_some]
      refine ⟨fun m hm => ?_, Or.inl ⟨last, ?_, ?_, ?_, hat⟩⟩
      · rw [hat]
        exact le_getLast_getMessages hlast hm
      · exact (List.mem_insertionSort _).mp (List.mem_of_getLast? hlast)
      · simp only [roomOf, hlast, Option.map_some]
      · simp only [roomOf, hlast, Option.map_some, Option.getD_some]

/-- **A message folded in keeps it so.** -/
theorem Shows.fold (h : Shows room seen) (hsince : seen ≠ [] ∨ 0 ≤ msg.createdAt) :
    Shows (room.fold msg) (seen ++ [msg]) := by
  unfold ChatRoomState.fold
  by_cases hstale : room.stale msg = true
  · rw [if_pos hstale]
    have hlate : msg.createdAt < room.lastMessageAt ∨
        msg.createdAt = room.lastMessageAt ∧ room.lastMessage = some msg.content := by
      simpa [ChatRoomState.stale] using hstale
    have hle : msg.createdAt ≤ room.lastMessageAt := by omega
    refine ⟨fun m hm => ?_, ?_⟩
    · rcases List.mem_append.mp hm with hm | hm
      · exact h.newest m hm
      · obtain rfl := List.mem_singleton.mp hm
        exact hle
    · rcases h.shown with ⟨m, hm, hshown⟩ | ⟨hnil, hnone, -, hzero⟩
      · exact Or.inl ⟨m, List.mem_append_left _ hm, hshown⟩
      · -- nothing is shown before the first message, which is not passed over
        have hpast : ¬ msg.createdAt < room.lastMessageAt := by
          have := hsince.resolve_left (not_not.mpr hnil)
          omega
        have hsame := (hlate.resolve_left hpast).2
        rw [hnone] at hsame
        cases hsame
  · rw [if_neg hstale]
    have hle : room.lastMessageAt ≤ msg.createdAt := by
      by_contra hlt
      exact hstale (by simp [ChatRoomState.stale, Int.not_le.mp hlt])
    refine ⟨fun m hm => ?_, Or.inl ⟨msg, ?_, rfl, rfl, rfl⟩⟩
    · rcases List.mem_append.mp hm with hm | hm
      · exact Int.le_trans (h.newest m hm) hle
      · obtain rfl := List.mem_singleton.mp hm
        exact Int.le_refl _
    · exact List.mem_append_right _ List.mem_cons_self

theorem Shows.foldl (h : Shows room seen) (hsince : seen ≠ [] ∨ ∀ m ∈ ls, 0 ≤ m.createdAt) :
    Shows (ls.foldl ChatRoomState.fold room) (seen ++ ls) := by
  induction ls generalizing room seen with
  | nil =>
      rw [List.append_nil]
      exact h
  | cons msg ls ih =>
      have hstep := h.fold (hsince.imp id fun hall => hall msg List.mem_cons_self)
      have hrun := ih hstep (Or.inl (List.append_ne_nil_of_right_ne_nil _ (List.cons_ne_nil _ _)))
      rwa [List.append_assoc] at hrun

/-- A message that is alone the newest is the one shown. -/
theorem Shows.only (h : Shows room seen) {m : ChatMessage} (hm : m ∈ seen)
    (honly : ∀ x ∈ seen, m.createdAt ≤ x.createdAt → x = m) :
    room.lastMessage = some m.content ∧ room.lastMessageIsOwn = m.isMine ∧
      room.lastMessageAt = m.createdAt := by
  rcases h.shown with ⟨x, hx, hshown⟩ | ⟨rfl, -⟩
  · have hle := h.newest m hm
    rw [hshown.2.2] at hle
    obtain rfl := honly x hx hle
    exact hshown
  · cases hm

/-- Rooms of the same messages show the same time. -/
theorem Shows.time_congr (h : Shows room seen) (h' : Shows room' ls)
    (hsame : ∀ m, m ∈ seen ↔ m ∈ ls) : room.lastMessageAt = room'.lastMessageAt := by
  rcases h.shown with ⟨m, hm, -, -, hat⟩ | ⟨rfl, -, -, hat⟩
  · rcases h'.shown with ⟨m', hm', -, -, hat'⟩ | ⟨rfl, -⟩
    · have hle := h.newest m' ((hsame m').mpr hm')
      have hge := h'.newest m ((hsame m).mp hm)
      omega
    · exact absurd ((hsame m).mp hm) List.not_mem_nil
  · rcases h'.shown with ⟨m', hm', -⟩ | ⟨-, -, -, hat'⟩
    · exact absurd ((hsame m').mpr hm') List.not_mem_nil
    · exact hat.trans hat'.symm

/-! ## The unread count -/

theorem unreadCount_fold (room : ChatRoomState) (msg : ChatMessage) (h : room.stale msg = false) :
    (room.fold msg).unreadCount = room.unreadCount + [msg].countP (·.unread) := by
  have hfold : (room.fold msg).unreadCount =
      if msg.isMine || msg.isRead then room.unreadCount else room.unreadCount + 1 := by
    rw [ChatRoomState.fold, if_neg (by simp [h])]
  rw [hfold, List.countP_singleton, ChatMessage.unread]
  cases msg.isMine <;> cases msg.isRead <;> rfl

theorem countP_getMessages (stored : List ChatMessage) :
    (getMessages stored).countP (·.unread) = stored.countP (·.unread) :=
  (List.perm_insertionSort _ stored).countP_eq _

/-- **The count misses what was passed over**, and nothing else. -/
theorem unreadCount_foldl (room : ChatRoomState) (ls : List ChatMessage) :
    (ls.foldl ChatRoomState.fold room).unreadCount + (passedOver room ls).countP (·.unread) =
      room.unreadCount + ls.countP (·.unread) := by
  induction ls generalizing room with
  | nil => rfl
  | cons msg ls ih =>
      have hcons : ∀ l : List ChatMessage, (msg :: l).countP (·.unread) =
          [msg].countP (·.unread) + l.countP (·.unread) := by
        intro l
        show ([msg] ++ l).countP _ = _
        exact List.countP_append
      rw [List.foldl_cons, hcons]
      cases hstale : room.stale msg with
      | true =>
          have hpassed : passedOver room (msg :: ls) = msg :: passedOver room ls := if_pos hstale
          have hsame : room.fold msg = room := if_pos hstale
          rw [hpassed, hsame, hcons]
          have := ih room
          omega
      | false =>
          have hpassed : passedOver room (msg :: ls) = passedOver (room.fold msg) ls :=
            if_neg (by simp [hstale])
          rw [hpassed, ih, unreadCount_fold room msg hstale]
          omega

/-! ## The live preview and the stored history -/

/-- The room of a trade whose stored messages are all its peer's or ours. -/
theorem tradeInfoToChatRoom_eq {identity : Option NymIdentity} {stored : List ChatMessage}
    (hpeer : ∀ m ∈ stored, m.messageType = .peer)
    (h : tradeInfoToChatRoom trade identity (some (getMessages stored)) = some (some room)) :
    ∃ nym, room = roomOf trade nym (getMessages stored) ∧
      ∀ others, (∀ m ∈ others, m.messageType = .peer) →
        tradeInfoToChatRoom trade identity (some (getMessages others)) =
          some (some (roomOf trade nym (getMessages others))) := by
  have hall : ∀ others : List ChatMessage, (∀ m ∈ others, m.messageType = .peer) →
      (getMessages others).filter (·.messageType = .peer) = getMessages others := by
    intro others hothers
    refine List.filter_eq_self.mpr fun m hm => ?_
    exact decide_eq_true (hothers m ((List.mem_insertionSort _).mp hm))
  unfold tradeInfoToChatRoom at h ⊢
  split at h
  · cases h
  · next hpubkey =>
    cases hnym : (identity <|> fallbackIdentity trade.counterpartyPubkey) with
    | none =>
        rw [hnym] at h
        cases h
    | some nym =>
        rw [hnym] at h
        refine ⟨nym, ?_, fun others hothers => ?_⟩
        · have heq := Option.some.inj (Option.some.inj h)
          rw [← heq]
          exact congrArg (roomOf trade nym) (hall stored hpeer)
        · rw [if_neg hpubkey]
          exact congrArg (fun msgs => some (some (roomOf trade nym msgs))) (hall others hothers)

/-- **The live preview follows the stored history.** A room built from a history of peer messages
into which further ones are folded, in whatever order they arrive, shows the time of the newest of
all, and its text and owner where no other message is as new, as the room built from all of them
does, in whatever order they are stored; and its unread count is that room's less the unread
messages that were passed over as they arrived. -/
theorem preview_follows_history (trade : TradeInfo) (identity : Option NymIdentity)
    (history ls stored : List ChatMessage) (rooms : List ChatRoomState) (room : ChatRoomState)
    (hroom : tradeInfoToChatRoom trade identity (some (getMessages history)) = some (some room))
    (hrooms : rooms.find? (·.orderId = trade.orderId) = some room)
    (hpeer : ∀ m ∈ history ++ ls, m.messageType = .peer) (hstored : stored.Perm (history ++ ls))
    (hsince : history ≠ [] ∨ ∀ m ∈ ls, 0 ≤ m.createdAt) :
    ∃ live full, (ls.foldl (foldIncoming trade.orderId) rooms).find?
        (·.orderId = trade.orderId) = some live ∧
      tradeInfoToChatRoom trade identity (some (getMessages stored)) = some (some full) ∧
      live.lastMessageAt = full.lastMessageAt ∧
      (∀ m ∈ history ++ ls, m.createdAt ≤ live.lastMessageAt) ∧
      (∀ m ∈ history ++ ls, (∀ x ∈ history ++ ls, m.createdAt ≤ x.createdAt → x = m) →
        (live.lastMessage = some m.content ∧ live.lastMessageIsOwn = m.isMine ∧
          live.lastMessageAt = m.createdAt) ∧
        live.lastMessage = full.lastMessage ∧ live.lastMessageIsOwn = full.lastMessageIsOwn) ∧
      full.unreadCount = (history ++ ls).countP (·.unread) ∧
      live.unreadCount + (passedOver room ls).countP (·.unread) = full.unreadCount := by
  have hpast : ∀ m ∈ history, m.messageType = .peer := fun m hm =>
    hpeer m (List.mem_append_left _ hm)
  obtain ⟨nym, rfl, hothers⟩ := tradeInfoToChatRoom_eq hpast hroom
  have hlive : Shows (ls.foldl ChatRoomState.fold (roomOf trade nym (getMessages history)))
      (history ++ ls) := (shows_roomOf trade nym history).foldl hsince
  have hfull : Shows (roomOf trade nym (getMessages stored)) stored := shows_roomOf trade nym stored
  have hmem : ∀ m, m ∈ history ++ ls ↔ m ∈ stored := fun m => hstored.mem_iff.symm
  refine ⟨_, _, find?_foldl_foldIncoming (fun m hm => hpeer m (List.mem_append_right _ hm)) hrooms,
    hothers stored fun m hm => hpeer m ((hmem m).mpr hm), hlive.time_congr hfull hmem,
    hlive.newest, fun m hm honly => ?_, ?_, ?_⟩
  · have hl := hlive.only hm honly
    have hf := hfull.only ((hmem m).mp hm) fun x hx => honly x ((hmem x).mpr hx)
    exact ⟨hl, hl.1.trans hf.1.symm, hl.2.1.trans hf.2.1.symm⟩
  · exact (countP_getMessages stored).trans (hstored.countP_eq _)
  · calc (ls.foldl ChatRoomState.fold (roomOf trade nym (getMessages history))).unreadCount +
          (passedOver (roomOf trade nym (getMessages history)) ls).countP (·.unread)
        = (getMessages history).countP (·.unread) + ls.countP (·.unread) := unreadCount_foldl _ _
      _ = history.countP (·.unread) + ls.countP (·.unread) := by rw [countP_getMessages]
      _ = (history ++ ls).countP (·.unread) := List.countP_append.symm
      _ = stored.countP (·.unread) := (hstored.countP_eq _).symm
      _ = (getMessages stored).countP (·.unread) := (countP_getMessages stored).symm

def someTrade : TradeInfo := { orderId := "o1", counterpartyPubkey := "peer", role := .seller }

def someNym : NymIdentity := { pseudonym := "used-jaguar", iconIndex := 0, colorHue := 0 }

def first : ChatMessage := { id := "m1", content := "hola", createdAt := 100 }

def second : ChatMessage := { id := "m2", content := "nuevo", createdAt := 200 }

def third : ChatMessage := { id := "m3", content := "listo", createdAt := 300 }

/-- A backlog that comes in newest first is counted but for the message passed over. -/
theorem backlog_newest_first :
    ∃ live full,
      ([third, second].foldl (foldIncoming "o1") [roomOf someTrade someNym [first]]).find?
        (·.orderId = "o1") = some live ∧
      tradeInfoToChatRoom someTrade (some someNym) (some (getMessages [first, second, third])) =
        some (some full) ∧
      live.lastMessageAt = full.lastMessageAt ∧ live.lastMessage = full.lastMessage ∧
      live.unreadCount + 1 = full.unreadCount := by
  obtain ⟨live, full, hlive, hfull, hat, -, honly, -, hcount⟩ :=
    preview_follows_history someTrade (some someNym) [first] [third, second] [first, second, third]
      [roomOf someTrade someNym [first]] (roomOf someTrade someNym [first]) rfl rfl (by decide)
      (by decide) (Or.inl (List.cons_ne_nil _ _))
  exact ⟨live, full, hlive, hfull, hat, (honly third (by decide) (by decide)).2.1, hcount⟩

/-- **An older message is not counted**: of two unread messages that come in newest first one is
counted. And a room without messages passes over one dated before 1970. -/
theorem older_message_not_counted :
    (([second, first].foldl (foldIncoming "o1") [roomOf someTrade someNym []]).map
        (·.unreadCount) = [1] ∧
      (tradeInfoToChatRoom someTrade (some someNym) (some (getMessages [second, first]))).join.map
        (·.unreadCount) = some 2) ∧
      (([{ first with createdAt := -5 }].foldl (foldIncoming "o1")
          [roomOf someTrade someNym []]).map (·.lastMessageAt) = [0] ∧
        (tradeInfoToChatRoom someTrade (some someNym)
          (some (getMessages [{ first with createdAt := -5 }]))).join.map (·.lastMessageAt) =
            some (-5)) := by
  decide

end MostroApp.ChatRooms
