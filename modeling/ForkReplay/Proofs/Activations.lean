import ForkReplay.Evm.Machine

/-!
# What an instruction keeps of its frame

An instruction changes the stack, the memory and the gas of its frame. The account that
the frame acts for, what its end means, and the world that its failure brings back stay.
Gas is spent and never made: what an instruction sets aside for a new frame is taken from
its own.
-/

namespace ForkReplay.Evm

/-- Two states of one activation of a contract. -/
structure Frame.SameActivation (f g : Frame) : Prop where
  address : g.address = f.address
  purpose : g.purpose = f.purpose
  saved : g.saved = f.saved

namespace Frame.SameActivation

theorem refl (f : Frame) : f.SameActivation f := ⟨rfl, rfl, rfl⟩

theorem trans {f g h : Frame} (hfg : f.SameActivation g) (hgh : g.SameActivation h) :
    f.SameActivation h :=
  ⟨hgh.address.trans hfg.address, hgh.purpose.trans hfg.purpose, hgh.saved.trans hfg.saved⟩

end Frame.SameActivation

/-- A later state of the same activation, which has no more gas. -/
structure Frame.Continues (f g : Frame) : Prop extends f.SameActivation g where
  gas : g.gas ≤ f.gas

namespace Frame.Continues

variable {f g h : Frame}

theorem refl (f : Frame) : f.Continues f := ⟨.refl f, Nat.le_refl _⟩

/-- A change of anything but the activation and the gas. -/
theorem same (hfg : f.Continues g) (hgh : g.SameActivation h) (hgas : h.gas = g.gas) :
    f.Continues h :=
  ⟨hfg.toSameActivation.trans hgh, hgas ▸ hfg.gas⟩

theorem spend (hfg : f.Continues g) (hgh : g.SameActivation h) {cost : Nat}
    (hgas : h.gas = g.gas - cost) : f.Continues h :=
  ⟨hfg.toSameActivation.trans hgh, hgas ▸ Nat.le_trans (Nat.sub_le _ _) hfg.gas⟩

end Frame.Continues

/-- What holds of a value unless there is a halt instead. -/
def Yields {α : Type} (x : Except Halt α) (P : α → Prop) : Prop := ∀ a, x = .ok a → P a

namespace Yields

variable {α β : Type} {P : α → Prop} {Q : β → Prop}

theorem ok {a : α} (h : P a) : Yields (.ok a) P := by
  rintro _ ⟨⟩
  exact h

theorem error (cause : Halt) : Yields (.error cause : Except Halt α) P := nofun

theorem bind {x : Except Halt α} {k : α → Except Halt β} (hx : Yields x P)
    (hk : ∀ a, P a → Yields (k a) Q) : Yields (x >>= k) Q := by
  cases x with
  | error cause => exact error cause
  | ok a => exact hk a (hx a rfl)

/-- What comes before does not matter. -/
theorem after {x : Except Halt α} {k : α → Except Halt β} (hk : ∀ a, Yields (k a) Q) :
    Yields (x >>= k) Q :=
  bind (P := fun _ => True) (fun _ _ => trivial) fun a _ => hk a

theorem map {x : Except Halt α} {k : α → β} (hx : Yields x fun a => Q (k a)) :
    Yields (k <$> x) Q := by
  cases x with
  | error cause => exact error cause
  | ok a => exact ok (hx a rfl)

theorem and {x : Except Halt α} {P' : α → Prop} (hx : Yields x P) (hx' : Yields x P') :
    Yields x fun a => P a ∧ P' a :=
  fun a ha => ⟨hx a ha, hx' a ha⟩

end Yields

/-! ## Operations on a frame -/

namespace Frame

open Continues (refl)

variable {f g : Frame}

theorem charge_yields (h : f.Continues g) (cost : Nat) :
    Yields (g.charge cost) f.Continues := by
  unfold charge
  split
  next => exact .error _
  next => exact .ok (h.spend ⟨rfl, rfl, rfl⟩ rfl)

theorem charge_pays (g : Frame) (cost : Nat) :
    Yields (g.charge cost) fun paid => paid.gas + cost = g.gas := by
  unfold charge
  split
  next => exact .error _
  next hcovered => exact .ok (Nat.sub_add_cancel (Nat.le_of_not_lt hcovered))

theorem push_yields (h : f.Continues g) (word : Word) :
    Yields (g.push word) f.Continues := by
  unfold push
  split
  next => exact .error _
  next => exact .ok (h.same ⟨rfl, rfl, rfl⟩ rfl)

theorem pop_yields (h : f.Continues g) : Yields g.pop fun top => f.Continues top.2 := by
  unfold pop
  split
  next => exact .ok (h.same ⟨rfl, rfl, rfl⟩ rfl)
  next => exact .error _

theorem pop2_yields (h : f.Continues g) :
    Yields g.pop2 fun top => f.Continues top.2.2 := by
  unfold pop2
  split
  next => exact .ok (h.same ⟨rfl, rfl, rfl⟩ rfl)
  next => exact .error _

theorem pop3_yields (h : f.Continues g) :
    Yields g.pop3 fun top => f.Continues top.2.2.2 := by
  unfold pop3
  split
  next => exact .ok (h.same ⟨rfl, rfl, rfl⟩ rfl)
  next => exact .error _

theorem pop4_yields (h : f.Continues g) :
    Yields g.pop4 fun top => f.Continues top.2.2.2.2 := by
  unfold pop4
  split
  next => exact .ok (h.same ⟨rfl, rfl, rfl⟩ rfl)
  next => exact .error _

theorem grow_yields (h : f.Continues g) (start count : Nat) :
    Yields (g.grow start count) f.Continues := by
  unfold grow
  dsimp only
  split
  next => exact .ok h
  next =>
    split
    next => exact .error _
    next => exact .ok (h.spend ⟨rfl, rfl, rfl⟩ rfl)

theorem growRange_yields (h : f.Continues g) (start : Word) (count : Nat) :
    Yields (g.growRange start count) fun grown => f.Continues grown.2 := by
  unfold growRange
  split
  next => exact .ok h
  next => exact .after fun start => (grow_yields h start count).bind fun _ hgrown => .ok hgrown

theorem write_same (h : f.Continues g) (start : Nat) (part : Bytes) :
    f.Continues (g.write start part) := h.same ⟨rfl, rfl, rfl⟩ rfl

theorem copyIn_yields (h : f.Continues g) (target : Word) (source : Bytes)
    (start count : Nat) : Yields (g.copyIn target source start count) f.Continues := by
  refine (charge_yields h _).bind fun paid hpaid => ?_
  dsimp only
  split
  next => exact .ok hpaid
  next =>
    refine (growRange_yields hpaid target count).bind fun grown hgrown => ?_
    exact .ok (write_same hgrown _ _)

theorem jump_yields (h : f.Continues g) (target : Word) :
    Yields (g.jump target) f.Continues := by
  unfold jump
  split
  next => exact .error _
  next =>
    split
    next => exact .ok (h.same ⟨rfl, rfl, rfl⟩ rfl)
    next => exact .error _

theorem mapTop_yields (h : f.Continues g) (change : Word → Word) :
    Yields (g.mapTop change) f.Continues := by
  unfold mapTop
  split
  next => exact .ok (h.same ⟨rfl, rfl, rfl⟩ rfl)
  next => exact .error _

theorem output_yields (h : f.Continues g) :
    Yields g.output fun output => f.Continues output.2 := by
  refine (pop2_yields h).bind fun _ htop => .after fun count => ?_
  exact (growRange_yields htop _ _).bind fun _ hgrown => .ok hgrown

theorem log_yields (h : f.Continues g) (topics : Nat) :
    Yields (g.log topics) f.Continues := by
  refine .after fun _ => (pop2_yields h).bind fun _ htop => .after fun count => ?_
  refine (charge_yields htop _).bind fun _ hpaid => ?_
  refine (growRange_yields hpaid _ _).bind fun _ hgrown => ?_
  dsimp only
  split
  next => exact .error _
  next => exact .ok (hgrown.same ⟨rfl, rfl, rfl⟩ rfl)

theorem resume_same (f : Frame) (purpose : Purpose) (result : Result) :
    f.SameActivation (f.resume purpose result) := by
  unfold resume
  cases purpose with
  | create address => exact ⟨rfl, rfl, rfl⟩
  | call offset size =>
      dsimp only
      split
      next => exact ⟨rfl, rfl, rfl⟩
      next =>
        split
        next => exact ⟨rfl, rfl, rfl⟩
        next => exact ⟨rfl, rfl, rfl⟩

end Frame

/-! ## Instructions -/

/-- The numbers of blocks that an access may ask for have 64 bits. -/
def Access.InRange : Access → Prop
  | .blockHash number => number < UInt64.size
  | _ => True

/-- What a creation sets aside for its frame is taken from the frame that creates, and is
not all that it takes. -/
def Access.PaidBy (f g : Frame) : Access → Prop
  | .create operands | .deploy operands _ => g.gas + operands.gas < f.gas
  | _ => True

/-- An effect on a frame leaves its activation and makes no gas. -/
def Effect.Fits (f : Frame) : Effect → Prop
  | .next g | .finish g _ | .revert g _ => f.Continues g
  | .access what g => f.Continues g ∧ what.InRange ∧ what.PaidBy f g

namespace Frame

variable {f g : Frame}

theorem payInitCode_yields (h : f.Continues g) (env : Env) (count : Nat) :
    Yields (g.payInitCode env count) f.Continues := by
  unfold payInitCode
  split
  next =>
    split
    next => exact .error _
    next => exact charge_yields h _
  next => exact .ok h

theorem takeSalt_yields (h : f.Continues g) (salted : Bool) (count : Nat) :
    Yields (g.takeSalt salted count) fun salt => f.Continues salt.2 := by
  unfold takeSalt
  split
  next =>
    refine (pop_yields h).bind fun _ htop => ?_
    exact (charge_yields htop _).bind fun _ hpaid => .ok hpaid
  next => exact (charge_yields h _).bind fun _ hpaid => .ok hpaid

/-- Every creation has a price. -/
theorem takeSalt_pays (g : Frame) (salted : Bool) (count : Nat) :
    Yields (g.takeSalt salted count) fun salt => salt.2.gas < g.gas := by
  unfold takeSalt
  split
  next =>
    refine (pop_yields (.refl g)).bind fun top htop => ?_
    refine (charge_pays _ _).bind fun paid hpaid => .ok ?_
    have hgas := htop.gas
    change paid.gas < g.gas
    unfold Gas.create at hpaid
    omega
  next =>
    refine (charge_pays _ _).bind fun paid hpaid => .ok ?_
    change paid.gas < g.gas
    unfold Gas.create at hpaid
    omega

theorem takeCreate_yields (h : f.Continues g) (env : Env) (salted : Bool) :
    Yields (g.takeCreate env salted) (Effect.Fits f) := by
  refine .after fun _ => (pop3_yields h).bind fun _ htop => .after fun count => ?_
  refine (payInitCode_yields htop env count).bind fun _ hinit => ?_
  refine (growRange_yields hinit _ _).bind fun _ hgrown => ?_
  refine ((takeSalt_yields hgrown salted count).and (takeSalt_pays _ salted count)).bind
    fun _ ⟨hsalt, hprice⟩ => ?_
  refine ((charge_yields hsalt _).and (charge_pays _ _)).bind fun _ ⟨hpaid, hgas⟩ => ?_
  exact .ok ⟨hpaid, trivial,
    Nat.lt_of_lt_of_le (Nat.lt_of_le_of_lt (Nat.le_of_eq hgas) hprice) hgrown.gas⟩

theorem takeValue_yields (h : f.Continues g) (kind : CallKind) :
    Yields (g.takeValue kind) fun value => f.Continues value.2 := by
  cases kind with
  | call => exact pop_yields h
  | callCode => exact pop_yields h
  | delegateCall => exact .ok h
  | staticCall => exact .ok h

theorem takeCall_yields (h : f.Continues g) (kind : CallKind) :
    Yields (g.takeCall kind) (Effect.Fits f) := by
  refine (pop2_yields h).bind fun _ htop => (takeValue_yields htop kind).bind fun _ hvalue => ?_
  dsimp only
  split
  next => exact .error _
  next =>
    refine (pop4_yields hvalue).bind fun _ hranges => .after fun _ => ?_
    refine (growRange_yields hranges _ _).bind fun _ hinput => .after fun _ => ?_
    exact (growRange_yields hinput _ _).bind fun _ houtput => .ok ⟨houtput, trivial, trivial⟩

theorem accessAccount_yields (h : f.Continues g) {access : Address → Access}
    (hrange : ∀ address, (access address).InRange)
    (hpaid : ∀ address g, (access address).PaidBy f g) :
    Yields (g.accessAccount access) (Effect.Fits f) :=
  (pop_yields h).bind fun _ htop => .ok ⟨htop, hrange _, hpaid _ _⟩

end Frame

/-- A word that is cut to 64 bits has no more than that. -/
theorem clamp64_lt (word : Word) : word.clamp64 < UInt64.size :=
  Nat.lt_of_le_of_lt (Nat.min_le_right _ _) (by decide)

open ForkReplay.Evm.Frame in
/-- No instruction leaves the activation of its frame or makes gas. -/
theorem execute_yields (env : Env) (op : Opcode) (f : Frame) :
    Yields (execute env op f) (Effect.Fits f) := by
  have hsame := Continues.refl f
  unfold execute
  cases op with
  | stop => exact .ok hsame
  | binary op | addMod | mulMod =>
      dsimp only
      split
      next => exact .ok (hsame.same ⟨rfl, rfl, rfl⟩ rfl)
      next => exact .error _
  | exp =>
      refine (pop2_yields hsame).bind fun _ htop => ?_
      exact (charge_yields htop _).bind fun _ hpaid => .ok (hpaid.same ⟨rfl, rfl, rfl⟩ rfl)
  | isZero | not | countLeadingZeros | callDataLoad | blobHash =>
      exact .map (mapTop_yields hsame _)
  | keccak256 =>
      refine (pop2_yields hsame).bind fun _ htop => .after fun _ => ?_
      refine (charge_yields htop _).bind fun _ hpaid => ?_
      exact (growRange_yields hpaid _ _).bind fun _ hgrown => .ok (hgrown.same ⟨rfl, rfl, rfl⟩ rfl)
  | context op => exact .map (push_yields hsame _)
  | balance | extCodeSize | extCodeHash =>
      exact accessAccount_yields hsame (fun _ => trivial) fun _ _ => trivial
  | selfBalance =>
      dsimp only
      split
      next => exact .error _
      next => exact .ok ⟨hsame, trivial, trivial⟩
  | callDataCopy | codeCopy =>
      refine (pop3_yields hsame).bind fun _ htop => .after fun _ => ?_
      exact .map (copyIn_yields htop _ _ _ _)
  | extCodeCopy =>
      dsimp only
      split
      next => exact .ok ⟨hsame.same ⟨rfl, rfl, rfl⟩ rfl, trivial, trivial⟩
      next => exact .error _
  | returnDataCopy =>
      refine (pop3_yields hsame).bind fun _ htop => .after fun _ => ?_
      split
      next => exact .error _
      next => exact .map (copyIn_yields htop _ _ _ _)
  | blockHash =>
      refine (pop_yields hsame).bind fun _ htop => ?_
      dsimp only
      split
      next => exact .ok ⟨htop, clamp64_lt _, trivial⟩
      next => exact .ok (htop.same ⟨rfl, rfl, rfl⟩ rfl)
  | pop => exact (pop_yields hsame).bind fun _ htop => .ok htop
  | mload =>
      refine (pop_yields hsame).bind fun _ htop => .after fun _ => ?_
      exact (grow_yields htop _ _).bind fun _ hgrown => .ok (hgrown.same ⟨rfl, rfl, rfl⟩ rfl)
  | mstore | mstore8 =>
      refine (pop2_yields hsame).bind fun _ htop => .after fun _ => ?_
      exact (grow_yields htop _ _).bind fun _ hgrown => .ok (write_same hgrown _ _)
  | sload | tload => exact (pop_yields hsame).bind fun _ htop => .ok ⟨htop, trivial, trivial⟩
  | sstore =>
      refine .after fun _ => (pop2_yields hsame).bind fun _ htop => ?_
      dsimp only
      split
      next => exact .error _
      next => exact .ok ⟨htop, trivial, trivial⟩
  | tstore =>
      exact .after fun _ => (pop2_yields hsame).bind fun _ htop => .ok ⟨htop, trivial, trivial⟩
  | mcopy =>
      refine (pop3_yields hsame).bind fun _ htop => .after fun _ => ?_
      refine (charge_yields htop _).bind fun _ hpaid => ?_
      dsimp only
      split
      next => exact .ok hpaid
      next =>
        refine .after fun _ => .after fun _ => ?_
        exact (grow_yields hpaid _ _).bind fun _ hgrown => .ok (write_same hgrown _ _)
  | jump => exact (pop_yields hsame).bind fun _ htop => .map (jump_yields htop _)
  | jumpIf =>
      refine (pop2_yields hsame).bind fun _ htop => ?_
      dsimp only
      split
      next => exact .ok htop
      next => exact .map (jump_yields htop _)
  | jumpDest => exact .ok hsame
  | push count =>
      exact (push_yields hsame _).bind fun _ hpush => .ok (hpush.same ⟨rfl, rfl, rfl⟩ rfl)
  | dup depth =>
      dsimp only
      split
      next => exact .error _
      next => exact .map (push_yields hsame _)
  | swap depth =>
      dsimp only
      split
      next => exact .error _
      next =>
        split
        next => exact .error _
        next => exact .ok (hsame.same ⟨rfl, rfl, rfl⟩ rfl)
  | log topics => exact .map (log_yields hsame _)
  | create | create2 => exact takeCreate_yields hsame env _
  | call kind => exact takeCall_yields hsame kind
  | «return» => exact (output_yields hsame).bind fun _ houtput => .ok houtput
  | revert => exact (output_yields hsame).bind fun _ houtput => .ok houtput
  | invalid => exact .error _
  | selfDestruct =>
      exact .after fun _ => accessAccount_yields hsame (fun _ => trivial) fun _ _ => trivial

end ForkReplay.Evm
