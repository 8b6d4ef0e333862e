import Mathlib.Logic.Function.Basic
import ContentMesh.Proofs.Peer.Stance

/-!
# ContentMesh.Proofs.Peer.Pair — two instances that deal with each other

Two registries, and the errands that each has under way at the other.  An errand begins at any time, its call reaches
the peer or is lost, and so is the answer.  What both registries do is what their standings and calls do
(`Stands.step`): an instance has one call to its peer at a time, since it claims the peer's uri.
-/

namespace ContentMesh

/-- The two ends of a link. -/
inductive Side where
  | near
  | far
  deriving DecidableEq

namespace Side

def other : Side → Side
  | near => far
  | far => near

variable (i : Side)

@[simp] theorem other_other : i.other.other = i := by cases i <;> rfl

@[simp] theorem other_ne : i.other ≠ i := by cases i <;> decide

@[simp] theorem ne_other : i ≠ i.other := by cases i <;> decide

theorem eq_or_other (j : Side) : j = i ∨ j = i.other := by cases i <;> cases j <;> decide

end Side

/-- An errand under way: what waits at the caller, its call, and the reply when there is one; `held` is the key that
the peer has for the caller when it replies. -/
structure Trip where
  waiting : Waiting
  call : PeerCall
  reply : Option PeerReply
  held : Option String

/-- Two registries, with the errands of each that are under way. -/
structure Pair where
  registry : Side → Registry
  trips : Side → List Trip

namespace Pair

open Function (update)

/-- Who the two are. -/
def self (p : Pair) (i : Side) : Identity := (p.registry i).self

/-- What happens at one side: an errand sets out, or is done without its peer; its call arrives, its reply is there,
or one of the two is lost. -/
inductive Event where
  | begins (i : Side) (e : Errand)
  | refuses (i : Side) (e : Errand)
  | arrives (i : Side) (call : PeerCall) (reply : PeerReply)
  | returns (i : Side) (f : Trip) (result : Except Failure Bool)
  | fails (i : Side) (f : Trip)

inductive Step : Pair → Event → Pair → Prop where
  | begins (p : Pair) (i : Side) (e : Errand) {call : PeerCall} {w : Waiting} {r : Registry}
      (he : e.uri = (p.self i.other).uri) (h : (p.registry i).begin e = (.waits call w, r)) :
      Step p (.begins i e) ⟨update p.registry i r, update p.trips i (⟨w, call, none, none⟩ :: p.trips i)⟩
  | refuses (p : Pair) (i : Side) (e : Errand) {x : Except Failure Bool} {r : Registry}
      (he : e.uri = (p.self i.other).uri) (h : (p.registry i).begin e = (.done x, r)) :
      Step p (.refuses i e) { p with registry := update p.registry i r }
  | arrives (p : Pair) (i : Side) {f : Trip} {l l' : List Trip} {reply : PeerReply} {r : Registry}
      (hf : p.trips i = l ++ f :: l') (hn : f.reply = none)
      (h : (p.registry i.other).serve f.call = (reply, r)) :
      Step p (.arrives i f.call reply) ⟨update p.registry i.other r, update p.trips i
        (l ++ { f with reply := some reply, held := (r.row? (p.self i).uri).bind Peer.receiveKey } :: l')⟩
  | returns (p : Pair) (i : Side) {f : Trip} {l l' : List Trip} {reply : PeerReply} {x : Except Failure Bool}
      {r : Registry} (hf : p.trips i = l ++ f :: l') (hr : f.reply = some reply)
      (h : (p.registry i).finish f.waiting reply = (x, r)) :
      Step p (.returns i f x) ⟨update p.registry i r, update p.trips i (l ++ l')⟩
  | fails (p : Pair) (i : Side) {f : Trip} {l l' : List Trip} (failure : Failure) {x : Except Failure Bool}
      {r : Registry} (hf : p.trips i = l ++ f :: l')
      (h : (p.registry i).finish f.waiting (.failed failure) = (x, r)) :
      Step p (.fails i f) ⟨update p.registry i r, update p.trips i (l ++ l')⟩

/-- Runs, with what happened in them, the latest first. -/
inductive Run (s : Pair) : List Event → Pair → Prop where
  | start : Run s [] s
  | next {es : List Event} {e : Event} {t u : Pair} : Run s es t → Step t e u → Run s (e :: es) u

/-- Two instances that know nothing of each other. -/
structure Strangers (p : Pair) : Prop where
  apart : (p.self .near).uri ≠ (p.self .far).uri
  rows : ∀ i, (p.registry i).row? (p.self i.other).uri = none
  claims : ∀ i, (p.self i.other).uri ∉ (p.registry i).claims
  trips : ∀ i, p.trips i = []

/-- Two instances that have just started. -/
def fresh (near far : Identity) : Pair where
  registry
    | .near => .inMemory near
    | .far => .inMemory far
  trips _ := []

theorem strangers_fresh {near far : Identity} (h : near.uri ≠ far.uri) : (fresh near far).Strangers where
  apart := h
  rows i := by cases i <;> rfl
  claims i := by cases i <;> exact List.not_mem_nil
  trips _ := rfl

/-- How one of the two stands with the other. -/
def Keeps (p : Pair) (i : Side) (x : Stance) : Prop := (p.registry i).Keeps (p.self i.other) x

end Pair

/-! ## Stances and calls -/

/-- How far a call has come: it is on its way, it brought no answer, or it was answered by a peer that held a key. -/
inductive Phase where
  | underway
  | unanswered
  | answered (v : Verdict) (held : String)

/-- A call with its purpose, as it has come so far. -/
inductive Trip.Bears (me peer : Identity) (q : Purpose) : Phase → Trip → Prop where
  | underway {w : Waiting} (hw : q.Waits peer w) : Bears me peer q .underway ⟨w, q.call me peer, none, none⟩
  | unanswered {w : Waiting} {reply : PeerReply} (hw : q.Waits peer w) (hreply : ∀ a, reply ≠ .answer a)
      (held : Option String) : Bears me peer q .unanswered ⟨w, q.call me peer, some reply, held⟩
  | answered {w : Waiting} (hw : q.Waits peer w) (v : Verdict) (held : String) :
      Bears me peer q (.answered v held) ⟨w, q.call me peer, some (.answer (v.answer peer)), some held⟩

/-- How each of the two stands with the other, and its call to it. -/
structure Dealings where
  standing : Side → Stance
  call : Side → Option (Purpose × Phase)

namespace Dealings

open Function (update)
open Pair (Event)

/-- Nothing has passed between the two. -/
def fresh : Dealings := ⟨fun _ => none, fun _ => none⟩

/-- What an event does to standings and calls. -/
inductive Move (ids : Side → Identity) (h : Dealings) : Event → Dealings → Prop where
  | begins {i : Side} {e : Errand} {q : Purpose} {x : Stance} (hfree : h.call i = none)
      (hopen : q.Opens e (h.standing i) x) :
      Move ids h (.begins i e) ⟨update h.standing i x, update h.call i (some (q, .underway))⟩
  | refuses (i : Side) (e : Errand) : Move ids h (.refuses i e) h
  | admitted {i : Side} {q : Purpose} {key : String} (hcall : h.call i = some (q, .underway))
      (hkey : q.key? = some key) {v : Verdict} {x : Status × String}
      (hweigh : (h.standing i.other).weigh key = (v, some x)) :
      Move ids h (.arrives i (q.call (ids i) (ids i.other)) (.answer (v.answer (ids i.other))))
        ⟨update h.standing i.other (some x), update h.call i (some (q, .answered v x.2))⟩
  | ignored {i : Side} {q : Purpose} {call : PeerCall} {reply : PeerReply} (hcall : h.call i = some (q, .underway))
      (hreply : ∀ a, reply ≠ .answer a) :
      Move ids h (.arrives i call reply) ⟨h.standing, update h.call i (some (q, .unanswered))⟩
  | dismissed {i : Side} {call : PeerCall} {reply : PeerReply} (hcall : h.call i = some (.leave, .underway))
      (hreply : ∀ a, reply ≠ .answer a) :
      Move ids h (.arrives i call reply)
        ⟨update h.standing i.other none, update h.call i (some (.leave, .unanswered))⟩
  | settles {i : Side} {q : Purpose} {v : Verdict} {held : String} {f : Trip} {b : Bool}
      (hcall : h.call i = some (q, .answered v held))
      (hf : f.Bears (ids i) (ids i.other) q (.answered v held)) :
      Move ids h (.returns i f (.ok b)) ⟨update h.standing i (q.settle v (h.standing i)), update h.call i none⟩
  | lapses {i : Side} {q : Purpose} {ph : Phase} {f : Trip} {x : Except Failure Bool}
      (hcall : h.call i = some (q, ph)) (hf : f.Bears (ids i) (ids i.other) q ph)
      (hx : ph = .unanswered ∨ ∃ v held failure, ph = .answered v held ∧ x = .error failure) :
      Move ids h (.returns i f x) ⟨h.standing, update h.call i none⟩
  | fails {i : Side} {q : Purpose} {ph : Phase} {f : Trip} (hcall : h.call i = some (q, ph))
      (hf : f.Bears (ids i) (ids i.other) q ph) : Move ids h (.fails i f) ⟨h.standing, update h.call i none⟩

end Dealings

namespace Pair

open Function (update)

variable {ids : Side → Identity} {p p' s t : Pair} {h : Dealings} {e : Event} {es : List Event}

/-- Two registries and their errands come down to standings and calls. -/
structure Stands (ids : Side → Identity) (p : Pair) (h : Dealings) : Prop where
  self : ∀ i, p.self i = ids i
  keeps : ∀ i, (p.registry i).Keeps (ids i.other) (h.standing i)
  idle : ∀ i, h.call i = none → p.trips i = [] ∧ (ids i.other).uri ∉ (p.registry i).claims
  busy : ∀ i q ph, h.call i = some (q, ph) → (ids i.other).uri ∈ (p.registry i).claims ∧
    ∃ f, p.trips i = [f] ∧ f.Bears (ids i) (ids i.other) q ph

theorem Strangers.stands (hs : s.Strangers) : Stands s.self s .fresh where
  self _ := rfl
  keeps := hs.rows
  idle i _ := ⟨hs.trips i, hs.claims i⟩
  busy i q ph hc := by cases hc

theorem Strangers.uri_ne (hs : s.Strangers) (i : Side) : (s.self i).uri ≠ (s.self i.other).uri := by
  cases i with
  | near => exact hs.apart
  | far => exact hs.apart.symm

/-- An errand that is under way is the call that the caller makes. -/
theorem Stands.trip (hs : Stands ids p h) {i : Side} {f : Trip} {l l' : List Trip}
    (hf : p.trips i = l ++ f :: l') : l = [] ∧ l' = [] ∧ ∃ q ph, h.call i = some (q, ph) ∧
      (ids i.other).uri ∈ (p.registry i).claims ∧ f.Bears (ids i) (ids i.other) q ph := by
  cases hc : h.call i with
  | none =>
    have hnil := (hs.idle i hc).1
    rw [hf] at hnil
    exact absurd hnil (by simp)
  | some c =>
    obtain ⟨q, ph⟩ := c
    obtain ⟨hclaim, g, hg, hb⟩ := hs.busy i q ph hc
    rw [hf] at hg
    cases l with
    | nil =>
      obtain ⟨rfl, rfl⟩ := List.cons.inj hg
      exact ⟨rfl, rfl, q, ph, rfl, hclaim, hb⟩
    | cons g' l =>
      have hlen := congrArg List.length hg
      simp at hlen

/-- A registry, an errand and a claim change at one side. -/
theorem Stands.put (hs : Stands ids p h) {i : Side} {r : Registry} {x : Stance} {fs : List Trip}
    {c : Option (Purpose × Phase)} (hself : r.self = ids i) (hkeeps : r.Keeps (ids i.other) x)
    (hidle : c = none → fs = [] ∧ (ids i.other).uri ∉ r.claims)
    (hbusy : ∀ q ph, c = some (q, ph) → (ids i.other).uri ∈ r.claims ∧
      ∃ f, fs = [f] ∧ f.Bears (ids i) (ids i.other) q ph) :
    Stands ids ⟨update p.registry i r, update p.trips i fs⟩ ⟨update h.standing i x, update h.call i c⟩ := by
  refine ⟨fun j => ?_, fun j => ?_, fun j => ?_, fun j => ?_⟩
  · show (update p.registry i r j).self = ids j
    by_cases hj : j = i
    · subst hj
      rwa [Function.update_self]
    · rw [Function.update_of_ne hj]
      exact hs.self j
  all_goals
    dsimp only
    by_cases hj : j = i
    · subst hj
      simp only [Function.update_self]
      assumption
    · simp only [Function.update_of_ne hj]
      first | exact hs.keeps j | exact hs.idle j | exact hs.busy j

/-- A registry changes at one side. -/
theorem Stands.turn (hs : Stands ids p h) {i : Side} {r : Registry} {x : Stance}
    (hr : (p.registry i).Turns (ids i.other) x r) :
    Stands ids { p with registry := update p.registry i r } { h with standing := update h.standing i x } := by
  have hput : Stands ids ⟨update p.registry i r, update p.trips i (p.trips i)⟩
      ⟨update h.standing i x, update h.call i (h.call i)⟩ := by
    refine hs.put (hr.self.trans (hs.self i)) hr.keeps ?_ ?_
    · rw [hr.claims]
      exact hs.idle i
    · rw [hr.claims]
      exact hs.busy i
  rwa [Function.update_eq_self, Function.update_eq_self] at hput

/-- A call comes further. -/
theorem Stands.travel (hs : Stands ids p h) {i : Side} {f g : Trip} {l l' : List Trip} {q : Purpose} {ph : Phase}
    (hf : p.trips i = l ++ f :: l') (hg : g.Bears (ids i) (ids i.other) q ph) :
    Stands ids { p with trips := update p.trips i (l ++ g :: l') }
      { h with call := update h.call i (some (q, ph)) } := by
  obtain ⟨rfl, rfl, -, -, -, hclaim, -⟩ := hs.trip hf
  have hput : Stands ids ⟨update p.registry i (p.registry i), update p.trips i [g]⟩
      ⟨update h.standing i (h.standing i), update h.call i (some (q, ph))⟩ := by
    refine hs.put (hs.self i) (hs.keeps i) (fun hc => by cases hc) fun q' ph' hc => ?_
    cases hc
    exact ⟨hclaim, g, rfl, hg⟩
  rwa [Function.update_eq_self, Function.update_eq_self] at hput

/-- An errand is over. -/
theorem Stands.land (hs : Stands ids p h) {i : Side} {f : Trip} {l l' : List Trip} {r : Registry} {x : Stance}
    (hf : p.trips i = l ++ f :: l')
    (hr : ((p.registry i).release (ids i.other).uri).Turns (ids i.other) x r) :
    Stands ids ⟨update p.registry i r, update p.trips i (l ++ l')⟩
      ⟨update h.standing i x, update h.call i none⟩ := by
  obtain ⟨rfl, rfl, -⟩ := hs.trip hf
  refine hs.put (hr.self.trans (hs.self i)) hr.keeps (fun _ => ⟨rfl, ?_⟩) (fun q ph hc => by cases hc)
  rw [hr.claims]
  exact Registry.not_mem_release _ _

/-- What the two registries do is what their standings and calls do. -/
theorem Stands.step (hs : Stands ids p h) (hu : ∀ i, (ids i).uri ≠ (ids i.other).uri) (hstep : Step p e p') :
    ∃ h', Dealings.Move ids h e h' ∧ Stands ids p' h' := by
  cases hstep with
  | begins i e he hbegin =>
    rw [hs.self] at he
    obtain ⟨hfree, q, x, hopen, hw, rfl, hr⟩ := (hs.keeps i).begin_waits he hbegin
    have hnone : h.call i = none := by
      cases hc : h.call i with
      | none => rfl
      | some c => exact absurd (hs.busy i c.1 c.2 hc).1 hfree
    refine ⟨_, .begins hnone hopen, hs.put (hr.self.trans (hs.self i)) hr.keeps (fun hc => by cases hc) ?_⟩
    intro q' ph hc
    cases hc
    refine ⟨?_, _, by rw [(hs.idle i hnone).1], ?_⟩
    · rw [hr.claims]
      exact List.mem_cons_self
    · have hself : (p.registry i).self = ids i := hs.self i
      rw [hself]
      exact .underway hw
  | refuses i e he hbegin =>
    rw [hs.self] at he
    have hturn := hs.turn ((hs.keeps i).begin_done he hbegin)
    rw [Function.update_eq_self] at hturn
    exact ⟨h, .refuses i e, hturn⟩
  | @arrives i f l l' reply r hf hn hserve =>
    obtain ⟨-, -, q, ph, hc, -, hb⟩ := hs.trip hf
    cases hb with
    | unanswered hw hreply held => cases hn
    | answered hw v held => cases hn
    | @underway w hw =>
      have hself : (p.registry i.other).self = ids i.other := hs.self i.other
      have hk : (p.registry i.other).Keeps (ids i) (h.standing i.other) := by
        have hk := hs.keeps i.other
        rwa [Side.other_other] at hk
      have hserved : (p.registry i.other).serve (q.call (ids i) (p.registry i.other).self) = (reply, r) := by
        rw [hself]
        exact hserve
      -- the rows of the peer and the call each take their step
      have hturn : ∀ {x}, (p.registry i.other).Turns (ids i) x r →
          Stands ids { p with registry := update p.registry i.other r }
            { h with standing := update h.standing i.other x } := by
        intro x hr
        refine hs.turn ?_
        rwa [Side.other_other]
      rcases hk.serve (by rw [hself]; exact hu i) q hserved with ⟨key, hkey, rfl, hr⟩ | ⟨hreply, hr | ⟨rfl, hr⟩⟩
      · obtain ⟨y, hy⟩ := (h.standing i.other).weigh_some key
        rw [hy] at hr
        have hheld : (r.row? (p.self i).uri).bind Peer.receiveKey = some y.2 := by
          rw [hs.self]
          exact hr.keeps.receiveKey
        rw [hself, hheld]
        exact ⟨_, .admitted hc hkey (Prod.ext rfl hy), (hturn hr).travel hf (.answered hw _ y.2)⟩
      · have hstands := (hturn hr).travel hf (.unanswered hw hreply ((r.row? (p.self i).uri).bind Peer.receiveKey))
        rw [Function.update_eq_self] at hstands
        exact ⟨_, .ignored hc hreply, hstands⟩
      · exact ⟨_, .dismissed hc hreply,
          (hturn hr).travel hf (.unanswered hw hreply ((r.row? (p.self i).uri).bind Peer.receiveKey))⟩
  | @returns i f l l' reply x r hf hreply hfinish =>
    obtain ⟨-, -, q, ph, hc, -, hb⟩ := hs.trip hf
    cases hb with
    | underway hw => cases hreply
    | @unanswered w reply' hw hnone held =>
      cases hreply
      have hr := (hs.keeps i).finish_unanswered hw hnone
      rw [hfinish] at hr
      have hland := hs.land hf hr
      rw [Function.update_eq_self] at hland
      exact ⟨_, .lapses hc (.unanswered hw hnone held) (Or.inl rfl), hland⟩
    | @answered w hw v held =>
      cases hreply
      have hr := (hs.keeps i).finish_answer hw v
      rw [hfinish] at hr
      cases x with
      | ok b => exact ⟨_, .settles hc (.answered hw v held), hs.land hf hr⟩
      | error failure =>
        have hland := hs.land hf hr
        rw [Function.update_eq_self] at hland
        exact ⟨_, .lapses hc (.answered hw v held) (Or.inr ⟨v, held, failure, rfl, rfl⟩), hland⟩
  | @fails i f l l' failure x r hf hfinish =>
    obtain ⟨-, -, q, ph, hc, -, hb⟩ := hs.trip hf
    have hw : q.Waits (ids i.other) f.waiting := by cases hb <;> assumption
    have hnone : ∀ a, PeerReply.failed failure ≠ .answer a := fun a ha => by cases ha
    have hr := (hs.keeps i).finish_unanswered hw hnone
    rw [hfinish] at hr
    have hland := hs.land hf hr
    rw [Function.update_eq_self] at hland
    exact ⟨_, .fails hc hb, hland⟩

theorem Stands.kept (hs : Stands ids p h) (i : Side) : p.Keeps i (h.standing i) := by
  unfold Pair.Keeps
  rw [hs.self]
  exact hs.keeps i

theorem Stands.call_eq_none (hs : Stands ids p h) {i : Side} (hf : p.trips i = []) : h.call i = none := by
  cases hc : h.call i with
  | none => rfl
  | some c =>
    obtain ⟨-, f, hone, -⟩ := hs.busy i c.1 c.2 hc
    rw [hf] at hone
    cases hone

/-- What holds of strangers and is kept by each move holds after a run of events that are allowed. -/
theorem Run.invariant {allowed : Event → Prop} {I : List Event → Dealings → Prop} (hrun : Run s es t)
    (hs : s.Strangers) (hes : ∀ e ∈ es, allowed e) (hstart : I [] .fresh)
    (hmove : ∀ {es h e h'}, allowed e → I es h → Dealings.Move s.self h e h' → I (e :: es) h') :
    ∃ h, I es h ∧ Stands s.self t h := by
  induction hrun with
  | start => exact ⟨_, hstart, hs.stands⟩
  | @next es e t u _ hstep ih =>
    obtain ⟨h, hI, hh⟩ := ih fun e he => hes e (List.mem_cons_of_mem _ he)
    obtain ⟨h', hmoved, hh'⟩ := hh.step hs.uri_ne hstep
    exact ⟨h', hmove (hes e List.mem_cons_self) hI hmoved, hh'⟩

end Pair

end ContentMesh
