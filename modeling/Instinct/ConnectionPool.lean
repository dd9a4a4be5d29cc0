/-
Instinct/ConnectionPool.lean

`BaseConnectionPool`: connections that are handed out and taken back.

`TryAcquire` takes the first idle connection out of the pool before it knows whether it
can give anything for it: when `Create` throws, the slot is lost.  Its test for a
connection that was idle for too long has the two times the wrong way round, and a
connection from the past always passes it.  `Release` puts back whatever it is given.
`poolRight_iff` says for every sequence of calls whether the number of the connections
stays and whether only fresh connections are handed out.
-/
import Instinct.Transitions
import Mathlib.Data.List.Basic

namespace Instinct.ConnectionPool

open Transitions

/-! ### The model -/

/-- A connection by the identity of its object. -/
abbrev Connection := Nat

/-- `ConnectionPoolOptions`, in nanoseconds.  A call that waits in vain ends with null, so
that the time it waits is left out. -/
structure ConnectionPoolOptions where
  initialConnectionCount : Int
  maxIdleDuration : Int

/-- What `TryAcquire` handed out: a connection from the pool, with the answer of `Check`
and the time that it was idle, or a created one. -/
inductive HandOut
  | pooled (connection : Connection) (accepted : Bool) (idle : Int)
  | created (connection : Connection)

structure Pool where
  idle : List Connection
  /-- Handed out and not yet released. -/
  handedOut : List Connection
  lastActiveTime : Connection → Int
  /-- The number of the connections that were created. -/
  createdCount : Nat
  handOuts : List HandOut

/-- `Create`, at the given time, of a connection that there was not before. -/
def Pool.create (pool : Pool) (time : Int) : Connection × Pool :=
  (pool.createdCount, { pool with
    lastActiveTime := fun c => if c = pool.createdCount then time else pool.lastActiveTime c
    createdCount := pool.createdCount + 1 })

/-- `UpdateActiveTime`. -/
def Pool.updateActiveTime (pool : Pool) (c : Connection) (time : Int) : Pool :=
  { pool with lastActiveTime := fun d => if d = c then time else pool.lastActiveTime d }

/-- The calls, with all that they get from outside: the answer of `Check`, the readings of
the clock, and the time of `Create`, or `none` when it throws. -/
inductive Op
  | tryAcquire (accepted : Bool) (now updated : Int) (create : Option Int)
  | release (connection : Option Connection) (accepted : Bool) (create : Option Int)

/-- The test of `TryAcquire` for a connection that is still good. -/
def isFresh (options : ConnectionPoolOptions) (pool : Pool) (c : Connection) (now : Int) :
    Bool :=
  pool.lastActiveTime c - now < options.maxIdleDuration

/-- `TryAcquire`, in a pool in which nobody releases a connection while it waits. -/
def Pool.tryAcquire (options : ConnectionPoolOptions) (pool : Pool) (accepted : Bool)
    (now updated : Int) (create : Option Int) : Pool :=
  match pool.idle with
  | [] => pool
  | c :: rest =>
    if accepted && isFresh options pool c now then
      { pool.updateActiveTime c updated with
        idle := rest
        handedOut := c :: pool.handedOut
        handOuts := .pooled c accepted (now - pool.lastActiveTime c) :: pool.handOuts }
    else
      match create with
      | none => { pool with idle := rest }
      | some time =>
        let (created, pool) := pool.create time
        { pool with
          idle := rest
          handedOut := created :: pool.handedOut
          handOuts := .created created :: pool.handOuts }

/-- `Release`.  A connection is released by a call that does not throw. -/
def Pool.release (pool : Pool) (connection : Option Connection) (accepted : Bool)
    (create : Option Int) : Pool :=
  match connection, accepted with
  | some c, true => { pool with idle := pool.idle ++ [c], handedOut := pool.handedOut.erase c }
  | _, _ =>
    match create with
    | none => pool
    | some time =>
      let (created, pool) := pool.create time
      { pool with
        idle := pool.idle ++ [created]
        handedOut := connection.elim pool.handedOut pool.handedOut.erase }

def Pool.perform (options : ConnectionPoolOptions) (pool : Pool) : Op → Pool
  | .tryAcquire accepted now updated create =>
    pool.tryAcquire options accepted now updated create
  | .release connection accepted create => pool.release connection accepted create

/-- The pool after `Initialize`, with the times at which its connections were created.
Connections that are not of this pool have some time too. -/
def initialized (options : ConnectionPoolOptions) (times : Connection → Int) : Pool where
  idle := List.range options.initialConnectionCount.toNat
  handedOut := []
  lastActiveTime := times
  createdCount := options.initialConnectionCount.toNat
  handOuts := []

/-! ### What the pool promises -/

/-- A pooled connection was accepted and has not been idle for too long. -/
def HandOut.Right (options : ConnectionPoolOptions) : HandOut → Prop
  | .pooled _ accepted idle => accepted = true ∧ idle < options.maxIdleDuration
  | .created _ => True

/-- No connection is lost or added, and what was handed out is right. -/
structure Pool.Right (options : ConnectionPoolOptions) (pool : Pool) : Prop where
  count : (pool.idle.length + pool.handedOut.length : Int) = options.initialConnectionCount
  handOuts : ∀ h ∈ pool.handOuts, h.Right options

/-- The first idle connection, if it is handed out, has not been idle for too long, and if
it is replaced, `Create` does not throw.  A connection that is put back was handed out. -/
def Op.Fits (options : ConnectionPoolOptions) (pool : Pool) : Op → Prop
  | .tryAcquire accepted now _ create => ∀ c ∈ pool.idle.head?,
    if accepted && isFresh options pool c now then
      now - pool.lastActiveTime c < options.maxIdleDuration
    else create.isSome = true
  | .release connection accepted create =>
    (connection.isSome && accepted) = true ∨ create.isSome = true →
      ∃ c ∈ connection, c ∈ pool.handedOut

/-! ### Every call -/

variable {options : ConnectionPoolOptions} {pool : Pool}

theorem Pool.Right.of_eq {pool' : Pool} (h : pool.Right options)
    (hcount : pool'.idle.length + pool'.handedOut.length =
      pool.idle.length + pool.handedOut.length)
    (hhandOuts : ∀ o ∈ pool'.handOuts, o ∈ pool.handOuts ∨ o.Right options) :
    pool'.Right options where
  count := by
    have := h.count
    omega
  handOuts := by
    intro o ho
    rcases hhandOuts o ho with ho | ho
    · exact h.handOuts o ho
    · exact ho

/-- `TryAcquire` keeps the promises if and only if it meets neither defect. -/
theorem tryAcquire_right_iff (h : pool.Right options) (accepted : Bool) (now updated : Int)
    (create : Option Int) :
    (pool.tryAcquire options accepted now updated create).Right options ↔
      (Op.tryAcquire accepted now updated create).Fits options pool := by
  unfold Pool.tryAcquire Op.Fits
  cases hidle : pool.idle with
  | nil => simpa using h
  | cons c rest =>
    simp only [List.head?_cons, Option.mem_some_iff, forall_eq']
    by_cases hgood : (accepted && isFresh options pool c now) = true
    · simp only [hgood, if_true]
      -- the number stays, so that only the time it was idle decides
      constructor
      · intro hright
        exact (hright.handOuts _ List.mem_cons_self).2
      · intro hidle'
        refine h.of_eq ?_ ?_
        · simp only [hidle, List.length_cons]
          omega
        · intro o ho
          rcases List.mem_cons.mp ho with rfl | ho
          · exact Or.inr ⟨(Bool.and_eq_true_iff.mp hgood).1, hidle'⟩
          · exact Or.inl ho
    · simp only [hgood]
      cases create with
      | none =>
        -- the connection is gone from the pool and nobody has it
        simp only [Option.isSome_none, Bool.false_eq_true, if_false, iff_false]
        intro hright
        have h₁ := h.count
        have h₂ := hright.count
        simp only [hidle, List.length_cons] at h₁ h₂
        omega
      | some time =>
        simp only [Option.isSome_some, Bool.false_eq_true, if_false, iff_true]
        refine h.of_eq ?_ ?_
        · simp only [hidle, List.length_cons, Pool.create]
          omega
        · intro o ho
          rcases List.mem_cons.mp ho with rfl | ho
          · exact Or.inr trivial
          · exact Or.inl ho

/-- One connection is put back, and the released one is no longer handed out: the number
stays if and only if it was handed out. -/
theorem right_put_iff (h : pool.Right options) (connection : Option Connection)
    {pool' : Pool} (hidle : pool'.idle.length = pool.idle.length + 1)
    (hhandedOut : pool'.handedOut = connection.elim pool.handedOut pool.handedOut.erase)
    (hhandOuts : pool'.handOuts = pool.handOuts) :
    pool'.Right options ↔ ∃ c ∈ connection, c ∈ pool.handedOut := by
  have hcount := h.count
  by_cases hmem : ∃ c ∈ connection, c ∈ pool.handedOut
  · obtain ⟨c, rfl, hc⟩ := hmem
    have hlen : pool'.handedOut.length = pool.handedOut.length - 1 := by
      rw [hhandedOut]
      exact List.length_erase_of_mem hc
    have hpos := List.length_pos_of_mem hc
    refine iff_of_true (h.of_eq ?_ ?_) ⟨c, rfl, hc⟩
    · omega
    · intro o ho
      exact Or.inl (hhandOuts ▸ ho)
  · have hlen : pool'.handedOut.length = pool.handedOut.length := by
      rw [hhandedOut]
      cases connection with
      | none => rfl
      | some c =>
        have hc : c ∉ pool.handedOut := fun hc => hmem ⟨c, rfl, hc⟩
        exact congrArg List.length (List.erase_of_not_mem hc)
    refine iff_of_false (fun hright => ?_) hmem
    have := hright.count
    omega

theorem release_right_iff (h : pool.Right options) (connection : Option Connection)
    (accepted : Bool) (create : Option Int) :
    (pool.release connection accepted create).Right options ↔
      (Op.release connection accepted create).Fits options pool := by
  unfold Op.Fits
  match connection, accepted, create with
  | some c, true, create =>
    have hput : (pool.release (some c) true create).Right options ↔
        ∃ d ∈ some c, d ∈ pool.handedOut :=
      right_put_iff h (some c) (by simp [Pool.release]) rfl rfl
    simpa using hput
  | none, accepted, some time =>
    have hput : (pool.release none accepted (some time)).Right options ↔
        ∃ d ∈ none, d ∈ pool.handedOut :=
      right_put_iff h none (by simp [Pool.release, Pool.create]) rfl rfl
    simpa using hput
  | some c, false, some time =>
    have hput : (pool.release (some c) false (some time)).Right options ↔
        ∃ d ∈ some c, d ∈ pool.handedOut :=
      right_put_iff h (some c) (by simp [Pool.release, Pool.create]) rfl rfl
    simpa using hput
  | none, accepted, none => simpa [Pool.release] using h
  | some c, false, none => simpa [Pool.release] using h

theorem perform_right_iff (op : Op) (h : pool.Right options) :
    (pool.perform options op).Right options ↔ op.Fits options pool := by
  cases op with
  | tryAcquire accepted now updated create =>
    exact tryAcquire_right_iff h accepted now updated create
  | release connection accepted create => exact release_right_iff h connection accepted create

theorem right_initialized_iff (times : Connection → Int) :
    (initialized options times).Right options ↔ 0 ≤ options.initialConnectionCount := by
  constructor
  · intro h
    have := h.count
    simp only [initialized, List.length_range, List.length_nil] at this
    omega
  · intro h
    refine ⟨?_, fun o ho => by cases ho⟩
    simp only [initialized, List.length_range, List.length_nil]
    omega

/-- For every sequence of calls: the number of the connections stays and every connection
that is handed out is right, in every state, if and only if there are not fewer than no
connections to begin with and every call, in the state that it finds, meets neither
defect of `TryAcquire` and puts back nothing that was not handed out. -/
theorem poolRight_iff (options : ConnectionPoolOptions) (times : Connection → Int)
    (ops : List Op) :
    (∀ pool ∈ visited (Pool.perform options) (initialized options times) ops,
      pool.Right options) ↔
      0 ≤ options.initialConnectionCount ∧
        Meets (Pool.perform options) (fun pool op => op.Fits options pool)
          (initialized options times) ops := by
  rw [forall_visited_iff (fun pool op h => perform_right_iff op h), right_initialized_iff]

/-- One connection and an hour of idle time. -/
def hour : ConnectionPoolOptions where
  initialConnectionCount := 1
  maxIdleDuration := 3600000000000

/-- A connection that was idle for two hours is handed out, and a slot is lost when
`Create` throws for a connection that `Check` did not accept. -/
theorem not_poolRight :
    ¬ (Pool.perform hour (initialized hour fun _ => 0)
        (.tryAcquire true 7200000000000 7200000000000 none)).Right hour ∧
      ¬ (Pool.perform hour (initialized hour fun _ => 0)
        (.tryAcquire false 0 0 none)).Right hour := by
  constructor
  · intro h
    have hidle : (7200000000000 : Int) - 0 < 3600000000000 :=
      (h.handOuts (.pooled 0 true (7200000000000 - 0)) List.mem_cons_self).2
    omega
  · intro h
    have hcount : ((0 + 0 : Nat) : Int) = 1 := h.count
    omega

end Instinct.ConnectionPool
