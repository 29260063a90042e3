import Mathlib.Data.List.Induction
import Mathlib.Logic.Function.Basic

/- The user pointers of the event loop (`epoll_loop.c`).

   The pointer given with a descriptor is kept in a table of 1024 entries, at the
   descriptor's number modulo 1024, and `nexus_epoll_wait` looks there for the pointer it
   passes on. So descriptors whose numbers differ by a multiple of 1024 share an entry: an
   event is passed on with the pointer last given for its own descriptor exactly when no
   other descriptor has left another pointer in the entry since (`wait_passes_latest_iff`).

   The calls are those of the four functions, and the closes that take a descriptor out of
   the kernel's list; descriptors are the non-negative numbers. A pointer is `none` for
   `NULL`. -/
namespace NexusGateway

/-- `MAX_EVENTS`. -/
def maxEvents : Nat := 1024

/-- `fd % MAX_EVENTS`. -/
def userSlot (fd : Nat) : Fin maxEvents := ⟨fd % maxEvents, Nat.mod_lt fd (by decide)⟩

section
variable {Ptr : Type}

/-- A call that changes what is registered. The kernel may refuse to add or to modify. -/
inductive EpollCall (Ptr : Type) where
  | add (fd : Nat) (events : UInt32) (user : Option Ptr) (refused : Bool)
  | mod (fd : Nat) (events : UInt32) (user : Option Ptr) (refused : Bool)
  | del (fd : Nat)
  | close (fd : Nat)
  deriving DecidableEq, Repr

/-- The kernel's list, with the events asked for, and `g_user_data`. -/
structure EpollLoop (Ptr : Type) where
  interest : Nat → Option UInt32
  userData : Fin maxEvents → Option Ptr

/-- `nexus_epoll_init`: nothing is registered and the table is zero. -/
def epollInit : EpollLoop Ptr := ⟨fun _ => none, fun _ => none⟩

def EpollLoop.registered (l : EpollLoop Ptr) (fd : Nat) : Bool := (l.interest fd).isSome

/-- `nexus_epoll_add`, `nexus_epoll_mod`, `nexus_epoll_del`, and a close. The table is written
    to whatever `epoll_ctl` returns. -/
def EpollLoop.call (l : EpollLoop Ptr) : EpollCall Ptr → EpollLoop Ptr
  | .add fd events user refused =>
    -- what is registered is not added again
    { interest := if refused || l.registered fd then l.interest
        else Function.update l.interest fd (some events)
      userData := Function.update l.userData (userSlot fd) user }
  | .mod fd events user refused =>
    { interest := if refused || !l.registered fd then l.interest
        else Function.update l.interest fd (some events)
      userData := Function.update l.userData (userSlot fd) user }
  | .del fd =>
    { interest := Function.update l.interest fd none
      userData := Function.update l.userData (userSlot fd) none }
  | .close fd => { l with interest := Function.update l.interest fd none }

/-- The event loop after these calls. -/
def epollAfter (calls : List (EpollCall Ptr)) : EpollLoop Ptr := calls.foldl EpollLoop.call epollInit

/-- An event that `epoll_wait` has stored, and the calls that the callback makes for it. -/
structure Fired (Ptr : Type) where
  fd : Nat
  events : UInt32
  calls : List (EpollCall Ptr)

/-- What the callback is called with. -/
structure Passed (Ptr : Type) where
  fd : Nat
  events : UInt32
  user : Option Ptr
  deriving DecidableEq, Repr

/-- The loop of `nexus_epoll_wait` over the events stored. -/
def epollWait (l : EpollLoop Ptr) : List (Fired Ptr) → List (Passed Ptr)
  | [] => []
  | e :: batch =>
    ⟨e.fd, e.events, l.userData (userSlot e.fd)⟩ :: epollWait (e.calls.foldl EpollLoop.call l) batch

/-! ## What was given, and what is in the table -/

/-- The pointer that the call gives for this descriptor. -/
def EpollCall.gives (fd : Nat) : EpollCall Ptr → Option (Option Ptr)
  | .add fd' _ user _ => if fd' = fd then some user else none
  | .mod fd' _ user _ => if fd' = fd then some user else none
  | _ => none

/-- What the call leaves in this entry of the table. -/
def EpollCall.leaves (s : Fin maxEvents) : EpollCall Ptr → Option (Option Ptr)
  | .add fd _ user _ => if userSlot fd = s then some user else none
  | .mod fd _ user _ => if userSlot fd = s then some user else none
  | .del fd => if userSlot fd = s then some none else none
  | .close _ => none

/-- The last thing of a kind in the calls. -/
def lastOf (f : EpollCall Ptr → Option (Option Ptr)) (calls : List (EpollCall Ptr)) :
    Option (Option Ptr) :=
  calls.reverse.findSome? f

/-- The pointer most recently given for the descriptor. -/
def lastGiven (fd : Nat) (calls : List (EpollCall Ptr)) : Option (Option Ptr) :=
  lastOf (EpollCall.gives fd) calls

/-- The calls made since then. -/
def sinceGiven (fd : Nat) (calls : List (EpollCall Ptr)) : List (EpollCall Ptr) :=
  (calls.reverse.takeWhile fun c => (c.gives fd).isNone).reverse

@[simp] theorem lastOf_nil (f : EpollCall Ptr → Option (Option Ptr)) : lastOf f [] = none := rfl

@[simp] theorem lastOf_append (f : EpollCall Ptr → Option (Option Ptr)) (calls : List (EpollCall Ptr))
    (c : EpollCall Ptr) : lastOf f (calls ++ [c]) = (f c).or (lastOf f calls) := by
  cases h : f c <;> simp [lastOf, h]

theorem epollAfter_append (calls : List (EpollCall Ptr)) (c : EpollCall Ptr) :
    epollAfter (calls ++ [c]) = (epollAfter calls).call c := by
  simp [epollAfter]

/-- An entry of the table holds what was left there last. -/
theorem userData_eq (calls : List (EpollCall Ptr)) (s : Fin maxEvents) :
    (epollAfter calls).userData s = (lastOf (EpollCall.leaves s) calls).getD none := by
  induction calls using List.reverseRecOn with
  | nil => rfl
  | append_singleton calls c ih =>
    rw [epollAfter_append, lastOf_append]
    have hwrite (fd : Nat) (user : Option Ptr) :
        Function.update (epollAfter calls).userData (userSlot fd) user s =
          ((if userSlot fd = s then some user else none).or
            (lastOf (EpollCall.leaves s) calls)).getD none := by
      by_cases h : userSlot fd = s
      · simp [h]
      · simp [h, Function.update_of_ne (Ne.symm h), ih]
    cases c with
    | add fd events user refused => exact hwrite fd user
    | mod fd events user refused => exact hwrite fd user
    | del fd => exact hwrite fd none
    | close fd => simpa [EpollLoop.call, EpollCall.leaves] using ih

/-- The call is made for this descriptor. -/
def EpollCall.isFor (fd : Nat) : EpollCall Ptr → Prop
  | .add fd' _ _ _ => fd' = fd
  | .mod fd' _ _ _ => fd' = fd
  | .del fd' => fd' = fd
  | .close fd' => fd' = fd

theorem interest_call {l : EpollLoop Ptr} {c : EpollCall Ptr} {fd : Nat} (h : ¬ c.isFor fd) :
    (l.call c).registered fd = l.registered fd := by
  have hupdate {fd' : Nat} (hne : fd' ≠ fd) (events : Option UInt32) :
      Function.update l.interest fd' events fd = l.interest fd :=
    Function.update_of_ne hne.symm _ _
  unfold EpollLoop.registered
  cases c with
  | add fd' events user refused =>
    simp only [EpollLoop.call]
    split <;> simp [hupdate h]
  | mod fd' events user refused =>
    simp only [EpollLoop.call]
    split <;> simp [hupdate h]
  | del fd' => simp [EpollLoop.call, hupdate h]
  | close fd' => simp [EpollLoop.call, hupdate h]

/-- A registered descriptor has been given a pointer, and no call has been made for it
    since. -/
theorem registered_since (calls : List (EpollCall Ptr)) {fd : Nat}
    (h : (epollAfter calls).registered fd = true) :
    lastGiven fd calls ≠ none ∧ ∀ c ∈ sinceGiven fd calls, ¬ c.isFor fd := by
  induction calls using List.reverseRecOn with
  | nil => simp [epollAfter, epollInit, EpollLoop.registered] at h
  | append_singleton calls c ih =>
    rw [epollAfter_append] at h
    cases hc : c.gives fd with
    | some user => simp [lastGiven, sinceGiven, hc]
    | none =>
      -- it gives nothing, and a call that takes the descriptor out is none that leaves it in
      have hfor : ¬ c.isFor fd := by
        cases c with
        | add fd' events user refused => simpa [EpollCall.gives, EpollCall.isFor] using hc
        | mod fd' events user refused => simpa [EpollCall.gives, EpollCall.isFor] using hc
        | del fd' =>
          rintro rfl
          simp [EpollLoop.call, EpollLoop.registered] at h
        | close fd' =>
          rintro rfl
          simp [EpollLoop.call, EpollLoop.registered] at h
      rw [interest_call hfor] at h
      obtain ⟨hlast, hsince⟩ := ih h
      refine ⟨by simpa [lastGiven, hc] using hlast, fun c' hc' => ?_⟩
      have hmem : c' ∈ sinceGiven fd calls ∨ c' = c := by simpa [sinceGiven, hc, or_comm] using hc'
      obtain hold | rfl := hmem
      · exact hsince c' hold
      · exact hfor

/-- What is in a descriptor's entry: what was left there since it was given a pointer, or else
    that pointer. -/
theorem lastOf_leaves (calls : List (EpollCall Ptr)) {fd : Nat} {user : Option Ptr}
    (h : lastGiven fd calls = some user) :
    lastOf (EpollCall.leaves (userSlot fd)) calls =
      (lastOf (EpollCall.leaves (userSlot fd)) (sinceGiven fd calls)).or (some user) := by
  induction calls using List.reverseRecOn with
  | nil => simp [lastGiven] at h
  | append_singleton calls c ih =>
    rw [lastGiven, lastOf_append] at h
    cases hc : c.gives fd with
    | some given =>
      have hleaves : c.leaves (userSlot fd) = some given := by
        cases c <;> simp_all [EpollCall.gives, EpollCall.leaves]
      have hsince : sinceGiven fd (calls ++ [c]) = [] := by simp [sinceGiven, hc]
      rw [hc, Option.some_or] at h
      rw [lastOf_append, hleaves, hsince, lastOf_nil, Option.none_or, Option.some_or, h]
    | none =>
      have hsince : sinceGiven fd (calls ++ [c]) = sinceGiven fd calls ++ [c] := by
        simp [sinceGiven, hc]
      rw [hc, Option.none_or] at h
      rw [hsince, lastOf_append, lastOf_append, ih h, Option.or_assoc]

/-! ## A batch -/

/-- Nothing else is in the descriptor's entry: of the calls made since it was given its
    pointer for descriptors that share the entry, the last one left the same pointer. -/
def Undisturbed (fd : Nat) (calls : List (EpollCall Ptr)) : Prop :=
  ∀ user ∈ lastOf (EpollCall.leaves (userSlot fd)) (sinceGiven fd calls),
    lastGiven fd calls = some user

instance [DecidableEq Ptr] (fd : Nat) (calls : List (EpollCall Ptr)) :
    Decidable (Undisturbed fd calls) :=
  inferInstanceAs (Decidable (∀ user ∈ lastOf _ _, _))

/-- No call for a descriptor that shares the entry: nothing is disturbed. -/
theorem undisturbed_of_apart {fd : Nat} {calls : List (EpollCall Ptr)}
    (h : ∀ c ∈ sinceGiven fd calls, ∀ fd', c.isFor fd' → userSlot fd' ≠ userSlot fd) :
    Undisturbed fd calls := by
  intro user huser
  obtain ⟨c, hc, hleaves⟩ := List.exists_of_findSome?_eq_some huser
  have happart := h c (List.mem_reverse.mp hc)
  cases c with
  | add fd' events user' refused => simp [EpollCall.leaves, happart fd' rfl] at hleaves
  | mod fd' events user' refused => simp [EpollCall.leaves, happart fd' rfl] at hleaves
  | del fd' => simp [EpollCall.leaves, happart fd' rfl] at hleaves
  | close fd' => simp [EpollCall.leaves] at hleaves

/-- The events of a batch, each with all calls made before its callback. -/
def moments (calls : List (EpollCall Ptr)) : List (Fired Ptr) → List (List (EpollCall Ptr) × Nat)
  | [] => []
  | e :: batch => (calls, e.fd) :: moments (calls ++ e.calls) batch

/-- What is passed for each event of a registered descriptor is the pointer most recently given
    for it. -/
def PassesLatest (calls : List (EpollCall Ptr)) (batch : List (Fired Ptr)) : Prop :=
  List.Forall₂ (fun m d => (epollAfter m.1).registered m.2 = true → lastGiven m.2 m.1 = some d.user)
    (moments calls batch) (epollWait (epollAfter calls) batch)

theorem passed_iff (calls : List (EpollCall Ptr)) {fd : Nat}
    (hreg : (epollAfter calls).registered fd = true) :
    lastGiven fd calls = some ((epollAfter calls).userData (userSlot fd)) ↔
      Undisturbed fd calls := by
  obtain ⟨user, hgiven⟩ := Option.ne_none_iff_exists'.mp (registered_since calls hreg).1
  rw [Undisturbed, userData_eq, lastOf_leaves calls hgiven, hgiven]
  cases lastOf (EpollCall.leaves (userSlot fd)) (sinceGiven fd calls) <;> simp

/-- **When the right pointer is passed.** For every sequence of calls on any descriptors, every
    batch of events and every calls that the callback makes for each: every registered
    descriptor with an event gets the pointer most recently given for it exactly when, at each
    such event, no other descriptor has left another pointer in its entry since then. -/
theorem wait_passes_latest_iff (batch : List (Fired Ptr)) : ∀ calls : List (EpollCall Ptr),
    PassesLatest calls batch ↔
      ∀ m ∈ moments calls batch, (epollAfter m.1).registered m.2 = true → Undisturbed m.2 m.1 := by
  induction batch with
  | nil => simp [PassesLatest, moments, epollWait]
  | cons e batch ih =>
    intro calls
    have hlater : e.calls.foldl EpollLoop.call (epollAfter calls) = epollAfter (calls ++ e.calls) := by
      simp [epollAfter]
    rw [PassesLatest, moments, epollWait, List.forall₂_cons, hlater, ← PassesLatest, ih,
      List.forall_mem_cons]
    refine and_congr_left fun _ => forall_congr' fun hreg => ?_
    exact passed_iff calls hreg

end

/-- Two descriptors that share an entry, each given its own pointer. -/
def sharedCalls : List (EpollCall Nat) := [.add 5 1 (some 1) false, .add 1029 1 (some 2) false]

/-- The event of the first is passed on with the pointer of the second. -/
theorem other_pointer_passed :
    epollWait (epollAfter sharedCalls) [⟨5, 1, []⟩] = [⟨5, 1, some 2⟩] ∧
    (epollAfter sharedCalls).registered 5 = true ∧ lastGiven 5 sharedCalls = some (some 1) ∧
    ¬ PassesLatest sharedCalls [⟨5, 1, []⟩] := by
  refine ⟨by decide, by decide, by decide, fun h => ?_⟩
  obtain ⟨hfirst, _⟩ := List.forall₂_cons.mp h
  exact absurd (hfirst (by decide)) (by decide)

end NexusGateway
