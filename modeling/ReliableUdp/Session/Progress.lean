import ReliableUdp.Framework.Runs

namespace ReliableUdp

/-- What a session is for, without packets: how far a stream of `n` chunks has been handed to the
network, written by the receiver and acknowledged to the sender, and how far the opening and
closing handshakes have come. -/
structure Session (n : Nat) where
  /-- the client has taken the server's numbers -/
  accepted : Bool
  /-- the client has entered its transfer state -/
  opened : Bool
  sent : Nat
  delivered : Nat
  acked : Nat
  /-- the client has seen the end of its input and all acknowledgements -/
  closing : Bool
  /-- the server has taken the client's FIN -/
  finSeen : Bool
  /-- the client has taken the server's FIN+ACK and entered its final state -/
  finished : Bool
  accepted_of_opened : opened = true → accepted = true
  opened_of_sent : 0 < sent → opened = true
  acked_le : acked ≤ delivered
  delivered_le : delivered ≤ sent
  sent_le : sent ≤ n
  acked_of_closing : closing = true → acked = n
  opened_of_closing : closing = true → opened = true
  closing_of_finSeen : finSeen = true → closing = true
  finSeen_of_finished : finished = true → finSeen = true

namespace Session

variable {n : Nat}

def start (n : Nat) : Session n where
  accepted := false
  opened := false
  sent := 0
  delivered := 0
  acked := 0
  closing := false
  finSeen := false
  finished := false
  accepted_of_opened := nofun
  opened_of_sent := nofun
  acked_le := Nat.le_refl 0
  delivered_le := Nat.le_refl 0
  sent_le := Nat.zero_le n
  acked_of_closing := nofun
  opened_of_closing := nofun
  closing_of_finSeen := nofun
  finSeen_of_finished := nofun

def accept (S : Session n) : Session n :=
  { S with
    accepted := true
    accepted_of_opened := fun _ => rfl }

def enter (S : Session n) (h : S.accepted = true) : Session n :=
  { S with
    opened := true
    accepted_of_opened := fun _ => h
    opened_of_sent := fun _ => rfl
    opened_of_closing := fun _ => rfl }

def send (S : Session n) (m : Nat) (h : S.opened = true) (hm : S.sent + m ≤ n) : Session n :=
  { S with
    sent := S.sent + m
    opened_of_sent := fun _ => h
    delivered_le := S.delivered_le.trans (Nat.le_add_right _ _)
    sent_le := hm }

def deliver (S : Session n) (h : S.delivered < S.sent) : Session n :=
  { S with
    delivered := S.delivered + 1
    acked_le := S.acked_le.trans (Nat.le_succ _)
    delivered_le := h }

def ack (S : Session n) (k : Nat) (h : S.acked ≤ k) (hk : k ≤ S.delivered) : Session n :=
  { S with
    acked := k
    acked_le := hk
    acked_of_closing := fun hc => Nat.le_antisymm
      (hk.trans (S.delivered_le.trans S.sent_le)) (S.acked_of_closing hc ▸ h) }

def close (S : Session n) (h : S.acked = n) (ho : S.opened = true) : Session n :=
  { S with
    closing := true
    acked_of_closing := fun _ => h
    opened_of_closing := fun _ => ho
    closing_of_finSeen := fun _ => rfl }

def seeFin (S : Session n) (h : S.closing = true) : Session n :=
  { S with
    finSeen := true
    closing_of_finSeen := fun _ => h
    finSeen_of_finished := fun _ => rfl }

def finish (S : Session n) (h : S.finSeen = true) : Session n :=
  { S with
    finished := true
    finSeen_of_finished := fun _ => h }

/-- The moves of a session. -/
inductive Step : Session n → Session n → Prop
  | accept (S : Session n) : Step S S.accept
  | enter (S : Session n) (h : S.accepted = true) : Step S (S.enter h)
  | send (S : Session n) (m : Nat) (h : S.opened = true) (hm : S.sent + m ≤ n) :
      Step S (S.send m h hm)
  | deliver (S : Session n) (h : S.delivered < S.sent) : Step S (S.deliver h)
  | ack (S : Session n) (k : Nat) (h : S.acked ≤ k) (hk : k ≤ S.delivered) :
      Step S (S.ack k h hk)
  | close (S : Session n) (h : S.acked = n) (ho : S.opened = true) : Step S (S.close h ho)
  | seeFin (S : Session n) (h : S.closing = true) : Step S (S.seeFin h)
  | finish (S : Session n) (h : S.finSeen = true) : Step S (S.finish h)

/-- Nothing a session has achieved is ever taken back. -/
structure Le (S T : Session n) : Prop where
  accepted : S.accepted = true → T.accepted = true
  opened : S.opened = true → T.opened = true
  sent : S.sent ≤ T.sent
  delivered : S.delivered ≤ T.delivered
  acked : S.acked ≤ T.acked
  closing : S.closing = true → T.closing = true
  finSeen : S.finSeen = true → T.finSeen = true
  finished : S.finished = true → T.finished = true

theorem Le.refl (S : Session n) : S.Le S :=
  ⟨id, id, Nat.le_refl _, Nat.le_refl _, Nat.le_refl _, id, id, id⟩

theorem Le.trans {S T U : Session n} (h : S.Le T) (k : T.Le U) : S.Le U :=
  ⟨k.accepted ∘ h.accepted, k.opened ∘ h.opened, h.sent.trans k.sent,
    h.delivered.trans k.delivered, h.acked.trans k.acked, k.closing ∘ h.closing,
    k.finSeen ∘ h.finSeen, k.finished ∘ h.finished⟩

theorem Step.le {S T : Session n} (h : Step S T) : S.Le T := by
  have r := Le.refl S
  cases h with
  | accept => exact { r with accepted := fun _ => rfl }
  | enter h => exact { r with opened := fun _ => rfl }
  | send m h hm => exact { r with sent := Nat.le_add_right _ _ }
  | deliver h => exact { r with delivered := Nat.le_succ _ }
  | ack k h hk => exact { r with acked := h }
  | close h ho => exact { r with closing := fun _ => rfl }
  | seeFin h => exact { r with finSeen := fun _ => rfl }
  | finish h => exact { r with finished := fun _ => rfl }

theorem Steps.le {S T : Session n} (h : Relation.ReflTransGen Step S T) : S.Le T := by
  induction h with
  | refl => exact Le.refl S
  | tail _ hs ih => exact ih.trans hs.le

/-- Before the client has taken the server's numbers nothing else has happened either. -/
theorem untouched (S : Session n) (h : S.accepted = false) :
    S.opened = false ∧ S.sent = 0 ∧ S.closing = false ∧ S.finished = false := by
  have ho : ¬ S.opened = true := fun ho => by
    rw [S.accepted_of_opened ho] at h
    exact Bool.noConfusion h
  have hc : ¬ S.closing = true := fun hc => ho (S.opened_of_closing hc)
  have hf : ¬ S.finished = true := fun hf =>
    hc (S.closing_of_finSeen (S.finSeen_of_finished hf))
  rw [Bool.not_eq_true] at hc hf
  refine ⟨(Bool.not_eq_true _).mp ho, ?_, hc, hf⟩
  by_contra hs
  exact ho (S.opened_of_sent (Nat.pos_of_ne_zero hs))

/-- A closing session has everything delivered. -/
theorem delivered_of_closing (S : Session n) (h : S.closing = true) :
    S.acked = n ∧ S.delivered = n ∧ S.sent = n := by
  have ha := S.acked_of_closing h
  have h1 := S.acked_le
  have h2 := S.delivered_le
  have h3 := S.sent_le
  omega

end Session

end ReliableUdp
