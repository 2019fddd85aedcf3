import ForkReplay.Proofs.TwinRuns

/-!
# Stages on two databases

Every stage of a transaction but one comes to the same on two databases that read the same, if
the world it starts from is backed by both. It leaves a world that is backed by both again. The
one left out applies authorizations: what these count depends on whether an overlay knows that
an account does not exist.
-/

namespace ForkReplay

namespace Database

variable {ε α β : Type} {pre : Overlay → Prop} {post : α → Overlay → Prop}

/-- A computation comes to the same on two databases that read the same, and both hold what
they held before. What it needs of both overlays is `pre`, and what it leaves in both if it
does not fail is `post`. -/
def Twin (pre : Overlay → Prop) (x : Overlaid ε α) (post : α → Overlay → Prop) : Prop :=
  ∀ db other : Database, db.Alike other → pre db.overlay → pre other.overlay →
    ∃ result after after', after.Extends db ∧ after'.Extends other ∧
      db.run x = (result, after) ∧ other.run x = (result, after') ∧
      ∀ value, result = .ok value → post value after.overlay ∧ post value after'.overlay

namespace Twin

theorem pure {value : α} (h : ∀ overlay, pre overlay → post value overlay) :
    Twin pre (Pure.pure value : Overlaid ε α) post := by
  intro db other _ hpre hpre'
  refine ⟨.ok value, db, other, .refl db, .refl other, rfl, rfl, ?_⟩
  rintro _ ⟨⟩
  exact ⟨h _ hpre, h _ hpre'⟩

theorem throw (error : ε) : Twin pre (MonadExcept.throw error : Overlaid ε α) post := by
  intro db other _ _ _
  exact ⟨.error error, db, other, .refl db, .refl other, rfl, rfl, nofun⟩

theorem bind {mid : β → Overlay → Prop} {x : Overlaid ε β} {f : β → Overlaid ε α}
    (hx : Twin pre x mid) (hf : ∀ value, Twin (mid value) (f value) post) :
    Twin pre (x >>= f) post := by
  intro db other halike hpre hpre'
  obtain ⟨result, middle, middle', hmiddle, hmiddle', hrun, hrun', hmid⟩ :=
    hx db other halike hpre hpre'
  rw [run_bind, run_bind, hrun, hrun']
  cases result with
  | error error => exact ⟨.error error, middle, middle', hmiddle, hmiddle', rfl, rfl, nofun⟩
  | ok value =>
      obtain ⟨hvalue, hvalue'⟩ := hmid value rfl
      obtain ⟨result, after, after', hafter, hafter', hlast⟩ :=
        hf value middle middle' (halike.extend hmiddle hmiddle') hvalue hvalue'
      exact ⟨result, after, after', hafter.trans hmiddle, hafter'.trans hmiddle', hlast⟩

/-- What is read off the overlays has to be the same for both. -/
theorem read (value : Overlay → β) (mid : β → Overlay → Prop) (f : β → Overlaid ε α)
    (hsame : ∀ overlay other, overlay.Agree other → pre overlay → pre other →
      value overlay = value other)
    (hvalue : ∀ overlay, pre overlay → mid (value overlay) overlay)
    (hf : ∀ value, Twin (mid value) (f value) post) :
    Twin pre (MonadState.get >>= fun overlay => f (value overlay)) post := by
  intro db other halike hpre hpre'
  have heq := hsame _ _ halike.agree hpre hpre'
  obtain ⟨result, after, after', hafter, hafter', hrun, hrun', hpost⟩ :=
    hf (value db.overlay) db other halike (hvalue _ hpre) (heq ▸ hvalue _ hpre')
  refine ⟨result, after, after', hafter, hafter', hrun, ?_, hpost⟩
  rw [heq] at hrun'
  exact hrun'

theorem mono {pre' : Overlay → Prop} {post' : α → Overlay → Prop} {x : Overlaid ε α}
    (hx : Twin pre x post) (hpre : ∀ overlay, pre' overlay → pre overlay)
    (hpost : ∀ value overlay, post value overlay → post' value overlay) : Twin pre' x post' := by
  intro db other halike hdb hother
  obtain ⟨result, after, after', hafter, hafter', hrun, hrun', hlast⟩ :=
    hx db other halike (hpre _ hdb) (hpre _ hother)
  exact ⟨result, after, after', hafter, hafter', hrun, hrun', fun value hvalue =>
    (hlast value hvalue).imp (hpost value _) (hpost value _)⟩

/-- An account that is held at the start is held at the end. -/
theorem holding {x : Overlaid ε α} (hx : Twin pre x post) (address : Address) :
    Twin (fun overlay => pre overlay ∧ overlay.Holds (.account address)) x
      fun value overlay => post value overlay ∧ overlay.Holds (.account address) := by
  intro db other halike hdb hother
  obtain ⟨result, after, after', hafter, hafter', hrun, hrun', hlast⟩ :=
    hx db other halike hdb.1 hother.1
  refine ⟨result, after, after', hafter, hafter', hrun, hrun', fun value hvalue => ?_⟩
  obtain ⟨hpost, hpost'⟩ := hlast value hvalue
  exact ⟨⟨hpost, hafter.grows _ hdb.2⟩, hpost', hafter'.grows _ hother.2⟩

end Twin

end Database

namespace Evm

open Database (Twin Settles)

namespace Stage

variable {α : Type} {pre : Overlay → Prop} {post : α → Overlay → Prop}

theorem run_keeping_of_ok {db after : Database} {value : α}
    {lookups : Overlay → Lookups (Except LookupFailure α × Overlay)}
    (h : db.resume (lookups db.overlay) = (.ok value, after)) :
    db.run (keeping lookups) = (.ok value, after) := by
  rw [Database.run, run_keeping, Database.resume_bind, h]
  rfl

theorem twin_check (result : Except Invalid Unit) : Twin pre (check result) fun _ => pre := by
  cases result with
  | error cause => exact .throw _
  | ok value => exact .pure fun _ h => h

/-- What is missing is looked up, and everything that more lookups keep is kept. -/
theorem twin_obtain {missing : Overlay → Option Lookup} {rounds : Nat}
    (hmissing : ∀ {overlay lookup}, missing overlay = some lookup → overlay.Lacks lookup)
    (hsettles : ∀ db : Database, Settles missing rounds db)
    (hpre : ∀ {overlay after}, overlay.Grows after → pre overlay → pre after) :
    Twin pre (obtain missing rounds) fun _ overlay => pre overlay ∧ missing overlay = none := by
  intro db other halike hdb hother
  obtain ⟨after, hafter, hnone, hsupply⟩ :=
    Database.resume_supply halike.succeeds hmissing (hsettles db)
  obtain ⟨after', hafter', hnone', hsupply'⟩ :=
    Database.resume_supply halike.succeeds' hmissing (hsettles other)
  refine ⟨.ok (), after, after', hafter, hafter', run_keeping_of_ok hsupply,
    run_keeping_of_ok hsupply', ?_⟩
  intro value _
  exact ⟨⟨hpre hafter.grows hdb, hnone⟩, hpre hafter'.grows hother, hnone'⟩

theorem twin_obtainAccount (world : World) (address : Address) :
    Twin world.Backed (obtainAccount world address)
      fun _ overlay => world.Backed overlay ∧ overlay.Holds (.account address) := by
  refine (twin_obtain World.lacks_of_missingAccount? (fun _ => Database.settles_missingAccount 0)
    fun hgrows h => h.grows hgrows).mono (fun _ h => h) ?_
  rintro _ overlay ⟨hbacked, hmissing⟩
  exact ⟨hbacked, hbacked.holds_of_missingAccount? hmissing⟩

end Stage

open Stage

variable {config : Config} {block : BlockEnv} {tx : Transaction}

/-! ## Before the machine runs -/

theorem twin_payUp (config : Config) (block : BlockEnv) (tx : Transaction) (world : World) :
    Twin world.Backed (payUp config block tx world)
      fun world overlay => world.Backed overlay ∧ overlay.Holds (.account tx.caller) := by
  refine (twin_obtainAccount world tx.caller).bind fun _ => ?_
  refine Twin.read
    (fun overlay => (world.account overlay tx.caller, takePayment overlay block tx world))
    (fun paid overlay => paid.2.Backed overlay ∧ overlay.Holds (.account tx.caller))
    (fun paid => do
      check (checkCaller config tx paid.1)
      return paid.2) ?_ ?_ fun _ => (twin_check _).bind fun _ => .pure fun _ h => h
  · rintro overlay other hagree ⟨-, hheld⟩ ⟨-, hheld'⟩
    have hcaller := hagree.account tx.caller hheld hheld'
    simp only [takePayment, World.account_congr hcaller, World.modify_congr hcaller]
  · rintro overlay ⟨hbacked, hheld⟩
    exact ⟨hbacked.modify hheld _, hheld⟩

theorem twin_loadKeys (address : Address) (keys : List Word) (world : World) :
    Twin (fun overlay => world.Backed overlay ∧ overlay.Holds (.account address))
      (loadKeys address keys world) World.Backed := by
  induction keys generalizing world with
  | nil => exact .pure fun _ h => h.1
  | cons key keys ih =>
      refine (twin_obtain World.lacks_of_missingSlot? (fun _ => Database.settles_missingSlot key)
        fun hgrows h => ⟨h.1.grows hgrows, hgrows _ h.2⟩).bind fun _ => ?_
      refine Twin.read
        (fun overlay => world.putSlot overlay address key (world.slot overlay address key)) _
        (loadKeys address keys) ?_ ?_ ih
      · rintro overlay other hagree ⟨⟨-, hheld⟩, hmissing⟩ ⟨⟨-, hheld'⟩, hmissing'⟩
        have haddress := hagree.account address hheld hheld'
        unfold World.putSlot
        rw [World.slot_congr haddress hagree world hmissing hmissing',
          World.modify_congr haddress]
      · rintro overlay ⟨⟨hbacked, hheld⟩, -⟩
        exact ⟨hbacked.modify hheld _, hheld⟩

theorem twin_loadAccessList (entries : List AccessEntry) (world : World) :
    Twin world.Backed (loadAccessList entries world) World.Backed := by
  induction entries generalizing world with
  | nil => exact .pure fun _ h => h
  | cons entry entries ih =>
      refine (twin_obtainAccount world entry.address).bind fun _ => ?_
      refine Twin.read (fun overlay => world.load overlay entry.address) _
        (fun world => do loadAccessList entries (← loadKeys entry.address entry.keys world))
        ?_ ?_ fun world => (twin_loadKeys _ _ world).bind ih
      · rintro overlay other hagree ⟨-, hheld⟩ ⟨-, hheld'⟩
        exact World.load_congr (hagree.account _ hheld hheld') world
      · rintro overlay ⟨hbacked, hheld⟩
        exact ⟨hbacked.load hheld, hheld⟩

theorem twin_accessListed (tx : Transaction) (world : World) :
    Twin world.Backed (accessListed tx world) World.Backed := by
  unfold accessListed
  split
  next => exact .pure fun _ h => h
  next => exact twin_loadAccessList _ world

theorem twin_openBegun (caller : Address) (operands : CreateOperands) (world : World)
    (begun : Except Result (Address × World)) :
    Twin (fun overlay => world.Backed overlay ∧ overlay.Holds (.account caller) ∧
        ∀ address counted, begun = .ok (address, counted) → counted.Backed overlay)
      (openBegun caller operands world begun) fun step overlay => step.Backed overlay := by
  rcases begun with result | ⟨address, counted⟩
  · exact .pure fun _ h => h.1
  · have hrest : Twin (fun overlay => counted.Backed overlay ∧ overlay.Holds (.account caller))
        (openBegun caller operands world (.ok (address, counted)))
        fun step overlay => step.Backed overlay := by
      refine ((twin_obtainAccount counted address).holding caller).bind fun _ => ?_
      refine Twin.read
        (fun overlay => (openCreate overlay caller address 0 operands counted).enter [])
        _ Pure.pure ?_ ?_ fun step => .pure fun _ h => h
      · rintro overlay other hagree ⟨⟨-, hheld⟩, hcaller⟩ ⟨⟨-, hheld'⟩, hcaller'⟩
        exact congrArg (Opening.enter []) (openCreate_congr 0 operands
          (hagree.account caller hcaller hcaller') (hagree.account address hheld hheld') counted)
      · rintro overlay ⟨⟨hbacked, hheld⟩, hcaller⟩
        exact (backed_openCreate hbacked hcaller hheld).enter nofun
    exact hrest.mono (fun _ h => ⟨h.2.2 _ _ rfl, h.2.1⟩) fun _ _ h => h

theorem twin_openFirst (env : Env) (tx : Transaction) (gas : Nat) (world : World) :
    Twin (fun overlay => world.Backed overlay ∧ overlay.Holds (.account tx.caller))
      (openFirst env tx gas world) fun step overlay => step.Backed overlay := by
  unfold openFirst
  split
  next callee _ =>
    refine (twin_obtain lacks_of_missingCallee? (fun _ => Database.settles_missingCallee)
      fun hgrows h => ⟨h.1.grows hgrows, hgrows _ h.2⟩).bind fun _ => ?_
    refine Twin.read
      (fun overlay => (openCall env overlay
        { caller := tx.caller, address := callee, codeAddress := callee, value := tx.value
          moves := true, input := tx.data, gas, isStatic := false, depth := 0 } world).enter [])
      _ Pure.pure ?_ ?_ fun step => .pure fun _ h => h
    · rintro overlay other hagree ⟨⟨hbacked, hheld⟩, hmissing⟩ ⟨⟨hbacked', hheld'⟩, hmissing'⟩
      have hcallee := (calleeHeld_of_missingCallee? hbacked hmissing).agrees
        (calleeHeld_of_missingCallee? hbacked' hmissing') hagree
      exact congrArg (Opening.enter []) (openCall_congr env hcallee hcallee.1
        fun _ => hagree.account tx.caller hheld hheld')
    · rintro overlay ⟨⟨hbacked, hheld⟩, hmissing⟩
      have hcallee := calleeHeld_of_missingCallee? hbacked hmissing
      exact (backed_openCall env hbacked hcallee hcallee.1 fun _ => hheld).enter nofun
  next =>
    refine Twin.read (fun overlay => beginCreate overlay tx.caller 0 _ world) _
      (openBegun tx.caller _ world) ?_ ?_ (twin_openBegun tx.caller _ world)
    · rintro overlay other hagree ⟨-, hheld⟩ ⟨-, hheld'⟩
      exact beginCreate_congr 0 _ (hagree.account tx.caller hheld hheld') world
    · rintro overlay ⟨hbacked, hheld⟩
      exact ⟨hbacked, hheld, fun _ _ => backed_beginCreate hbacked hheld⟩

/-! ## Running and settling -/

theorem twin_runMachine (env : Env) (fuel : Nat) (first : Step) :
    Twin (fun overlay => first.Backed overlay) (runMachine env fuel first)
      fun value => value.2.Backed := by
  intro db other halike hdb hother
  obtain ⟨result, world, after, after', hafter, hafter', hrun, hrun', hworld, hworld'⟩ :=
    Database.resume_run env fuel halike hdb hother
  refine ⟨.ok (result, world), after, after', hafter, hafter', run_keeping_of_ok hrun,
    run_keeping_of_ok hrun', ?_⟩
  rintro _ ⟨⟩
  exact ⟨hworld, hworld'⟩

theorem twin_payOut (config : Config) (block : BlockEnv) (tx : Transaction)
    (settlement : Settlement) (world : World) :
    Twin (fun overlay => world.Backed overlay ∧ overlay.Holds (.account tx.caller))
      (payOut config block tx settlement world) World.Backed := by
  refine Twin.read (fun overlay => world.credit overlay tx.caller _) World.Backed
    (fun world => do
      obtainAccount world block.beneficiary
      return world.credit (← get) block.beneficiary _) ?_ ?_ fun world => ?_
  · rintro overlay other hagree ⟨-, hheld⟩ ⟨-, hheld'⟩
    exact World.modify_congr (hagree.account tx.caller hheld hheld') world _
  · rintro overlay ⟨hbacked, hheld⟩
    exact hbacked.modify hheld _
  · refine (twin_obtainAccount world block.beneficiary).bind fun _ => ?_
    refine Twin.read (fun overlay => world.credit overlay block.beneficiary _) _ Pure.pure ?_ ?_
      fun world => .pure fun _ h => h
    · rintro overlay other hagree ⟨-, hheld⟩ ⟨-, hheld'⟩
      exact World.modify_congr (hagree.account block.beneficiary hheld hheld') world _
    · rintro overlay ⟨hbacked, hheld⟩
      exact hbacked.modify hheld _

end Evm

end ForkReplay
