import ForkReplay.Proofs.Courses

/-!
# Comparing transactions on two databases

Two computations that need not come to the same are compared by what relates their values. A
transaction ends with the same result of the machine on two databases that read the same, but
they may differ in which signers of its authorizations exist, and so in its refund.
-/

namespace ForkReplay

namespace Database

variable {ε α β : Type} {db other : Database}

/-- Two computations on two databases fail alike, or come to values that compare. They only
look things up. -/
def Compares (db other : Database) (x x' : Overlaid ε α)
    (related : α → α → Database → Database → Prop) : Prop :=
  ∃ after after', after.Extends db ∧ after'.Extends other ∧
    ((∃ error, db.run x = (.error error, after) ∧ other.run x' = (.error error, after')) ∨
      ∃ value value', db.run x = (.ok value, after) ∧ other.run x' = (.ok value', after') ∧
        related value value' after after')

namespace Compares

variable {x x' : Overlaid ε α} {related : α → α → Database → Database → Prop}

theorem pure {value value' : α} (h : related value value' db other) :
    db.Compares other (Pure.pure value : Overlaid ε α) (Pure.pure value') related :=
  ⟨db, other, .refl db, .refl other, .inr ⟨value, value', rfl, rfl, h⟩⟩

theorem bind {f f' : α → Overlaid ε β} {last : β → β → Database → Database → Prop}
    (hx : db.Compares other x x' related)
    (hf : ∀ value value' after after', after.Extends db → after'.Extends other →
      related value value' after after' → after.Compares after' (f value) (f' value') last) :
    db.Compares other (x >>= f) (x' >>= f') last := by
  obtain ⟨middle, middle', hmiddle, hmiddle', ⟨error, hrun, hrun'⟩ |
    ⟨value, value', hrun, hrun', hvalues⟩⟩ := hx
  · refine ⟨middle, middle', hmiddle, hmiddle', .inl ⟨error, ?_, ?_⟩⟩
    · rw [run_bind, hrun]
    · rw [run_bind, hrun']
  · obtain ⟨after, after', hafter, hafter', hends⟩ :=
      hf value value' middle middle' hmiddle hmiddle' hvalues
    refine ⟨after, after', hafter.trans hmiddle, hafter'.trans hmiddle', ?_⟩
    rw [run_bind, run_bind, hrun, hrun']
    exact hends

theorem get_bind {f f' : Overlay → Overlaid ε α}
    (h : db.Compares other (f db.overlay) (f' other.overlay) related) :
    db.Compares other (MonadState.get >>= f) (MonadState.get >>= f') related := h

theorem mono {related' : α → α → Database → Database → Prop}
    (hx : db.Compares other x x' related)
    (h : ∀ value value' after after', after.Extends db → after'.Extends other →
      related value value' after after' → related' value value' after after') :
    db.Compares other x x' related' := by
  obtain ⟨after, after', hafter, hafter', herror |
    ⟨value, value', hrun, hrun', hvalues⟩⟩ := hx
  · exact ⟨after, after', hafter, hafter', .inl herror⟩
  · exact ⟨after, after', hafter, hafter', .inr
      ⟨value, value', hrun, hrun', h value value' after after' hafter hafter' hvalues⟩⟩

/-- Databases that read the same come to the same value, with what a twin run tells of it. -/
theorem of_twin {pre : Overlay → Prop} {post : α → Overlay → Prop} (hx : Twin pre x post)
    (h : db.Alike other) (hdb : pre db.overlay) (hother : pre other.overlay) :
    db.Compares other x x fun value value' after after' =>
      value' = value ∧ post value after.overlay ∧ post value after'.overlay := by
  obtain ⟨result, after, after', hafter, hafter', hrun, hrun', hpost⟩ := hx db other h hdb hother
  refine ⟨after, after', hafter, hafter', ?_⟩
  cases result with
  | error error => exact .inl ⟨error, hrun, hrun'⟩
  | ok value => exact .inr ⟨value, value, hrun, hrun', rfl, hpost value rfl⟩

end Compares

end Database

namespace Evm.Stage

variable {α β : Type}

/-- Where the stage ends well, its value is as wanted. -/
def Leaves (x : Stage α) (wanted : α → Prop) : Prop :=
  ∀ (db after : Database) (value : α), db.run x = (.ok value, after) → wanted value

namespace Leaves

theorem pure {value : α} {wanted : α → Prop} (h : wanted value) :
    Leaves (Pure.pure value) wanted := by
  rintro db after _ ⟨⟩
  exact h

theorem bind {x : Stage α} {f : α → Stage β} {mid : α → Prop} {wanted : β → Prop}
    (hx : Leaves x mid) (hf : ∀ value, mid value → Leaves (f value) wanted) :
    Leaves (x >>= f) wanted := by
  intro db after value hrun
  rw [Database.run_bind] at hrun
  rcases hfirst : db.run x with ⟨error | first, middle⟩
  · rw [hfirst] at hrun
    cases hrun
  · rw [hfirst] at hrun
    exact hf first (hx db middle first hfirst) middle after value hrun

/-- What a first stage comes to may not matter. -/
theorem after_any {x : Stage α} {f : α → Stage β} {wanted : β → Prop}
    (hf : ∀ value, Leaves (f value) wanted) : Leaves (x >>= f) wanted :=
  bind (fun _ _ _ _ => trivial) fun value (_ : True) => hf value

theorem get_bind {f : Overlay → Stage α} {wanted : α → Prop}
    (hf : ∀ overlay, Leaves (f overlay) wanted) : Leaves (MonadState.get >>= f) wanted :=
  fun db after value hrun => hf db.overlay db after value hrun

end Leaves

end Evm.Stage

/-- What a comparison says of the first value, and what its stage leaves. -/
theorem Database.Compares.leaving {α : Type} {db other : Database} {x x' : Evm.Stage α}
    {related : α → α → Database → Database → Prop} {wanted : α → Prop}
    (h : db.Compares other x x' related) (hx : Evm.Stage.Leaves x wanted) :
    db.Compares other x x' fun value value' after after' =>
      related value value' after after' ∧ wanted value := by
  obtain ⟨after, after', hafter, hafter', herror | ⟨value, value', hrun, hrun', hvalues⟩⟩ := h
  · exact ⟨after, after', hafter, hafter', .inl herror⟩
  · exact ⟨after, after', hafter, hafter', .inr
      ⟨value, value', hrun, hrun', hvalues, hx db after value hrun⟩⟩

/-- The account of the signer may begin with this authorization: it is the first that the
signer could sign, and for this chain or for all. -/
def Authorization.Introduces (authorization : Authorization) (config : Evm.Config)
    (signer : Address) : Prop :=
  authorization.authority = some signer ∧ authorization.nonce = 0 ∧
    (authorization.chainId = 0 ∨ authorization.chainId = BitVec.ofNat 256 config.chainId.toNat)

/-- The account of the signer may begin with this transaction. That of the caller has begun
before any authorization applies. -/
def Transaction.Introduces (tx : Transaction) (config : Evm.Config) (signer : Address) : Prop :=
  tx.kind = 4 ∧ signer ≠ tx.caller ∧
    ∃ authorization ∈ tx.authorizations, authorization.Introduces config signer

/-- The account exists, and goes on doing so whatever is looked up. -/
def Overlay.Confirms (overlay : Overlay) (address : Address) : Prop :=
  overlay.Decides address ∧ overlay.isAbsent address = false

theorem Database.Extends.confirms {db after : Database} (h : after.Extends db) {address : Address}
    (hconfirms : db.overlay.Confirms address) : after.overlay.Confirms address :=
  ⟨h.decides hconfirms.1, (h.isAbsent address hconfirms.1).trans hconfirms.2⟩

/-! ## The caller -/

/-- The transaction has touched the account. -/
def World.Touches (world : World) (address : Address) : Prop :=
  ∃ entry, world.accounts[address]? = some entry ∧ entry.touched = true

namespace World

variable {world : World} {overlay : Overlay} {address other : Address}

theorem getElem?_put (world : World) (address other : Address) (entry : AccessedAccount) :
    (world.put address entry).accounts[other]? =
      if address = other then some entry else world.accounts[other]? := by
  simp only [put, Std.ExtTreeMap.getElem?_insert, Std.LawfulEqCmp.compare_eq_iff_eq]

theorem touches_put {entry : AccessedAccount} (h : entry.touched = true) :
    (world.put address entry).Touches address :=
  ⟨entry, by rw [getElem?_put, if_pos rfl], h⟩

theorem Touches.put (h : world.Touches address) {entry : AccessedAccount}
    (hentry : other = address → entry.touched = true) :
    (world.put other entry).Touches address := by
  by_cases haddress : other = address
  · subst haddress
    exact touches_put (hentry rfl)
  · obtain ⟨before, hbefore, htouched⟩ := h
    exact ⟨before, by rw [getElem?_put, if_neg haddress, hbefore], htouched⟩

theorem Touches.accessed (h : world.Touches address) (overlay : Overlay) :
    (world.accessed overlay address).touched = true := by
  obtain ⟨entry, hentry, htouched⟩ := h
  rw [World.accessed, hentry]
  exact htouched

theorem Touches.modify (h : world.Touches address) (overlay : Overlay)
    {change : AccessedAccount → AccessedAccount}
    (hchange : ∀ entry, entry.touched = true → (change entry).touched = true) :
    (world.modify overlay other change).Touches address := by
  refine h.put fun haddress => hchange _ ?_
  subst haddress
  exact h.accessed overlay

theorem Touches.load (h : world.Touches address) (overlay : Overlay) (other : Address) :
    (world.load overlay other).Touches address := by
  unfold World.load
  split
  next => exact h
  next =>
    refine h.put fun haddress => ?_
    subst haddress
    exact h.accessed overlay

end World

namespace Evm

open Database (Compares)
open Stage

variable {config : Config} {block : BlockEnv} {tx : Transaction} {world : World}
  {address : Address}

theorem leaves_payUp (config : Config) (block : BlockEnv) (tx : Transaction) (world : World) :
    Leaves (payUp config block tx world) fun paid => paid.Touches tx.caller :=
  .after_any fun _ => .get_bind fun _ => .after_any fun _ => .pure (World.touches_put rfl)

theorem leaves_loadKeys (other : Address) (keys : List Word) (h : world.Touches address) :
    Leaves (loadKeys other keys world) fun loaded => loaded.Touches address := by
  induction keys generalizing world with
  | nil => exact .pure h
  | cons key keys ih =>
      refine .after_any fun _ => .get_bind fun overlay => ih ?_
      exact h.modify overlay fun _ htouched => htouched

theorem leaves_loadAccessList (entries : List AccessEntry) (h : world.Touches address) :
    Leaves (loadAccessList entries world) fun loaded => loaded.Touches address := by
  induction entries generalizing world with
  | nil => exact .pure h
  | cons entry entries ih =>
      refine .after_any fun _ => .get_bind fun overlay => ?_
      exact (leaves_loadKeys entry.address entry.keys (h.load overlay _)).bind fun _ => ih

theorem leaves_accessListed (tx : Transaction) (h : world.Touches address) :
    Leaves (accessListed tx world) fun loaded => loaded.Touches address := by
  unfold accessListed
  split
  next => exact .pure h
  next => exact leaves_loadAccessList _ h

/-! ## Authorizations -/

/-- Two authorization lists come to the same world, with counts of at most `most`. The second
one is at most the first, and the same if `same` holds. -/
structure Counted (most : Nat) (same : Prop) (value value' : World × Nat)
    (after after' : Database) : Prop where
  world : value'.1 = value.1
  backed : value.1.Backed after.overlay
  backed' : value.1.Backed after'.overlay
  le_most : value.2 ≤ most
  le : value'.2 ≤ value.2
  eq : same → value'.2 = value.2

theorem Counted.weaken {most most' : Nat} {same same' : Prop} {value value' : World × Nat}
    {after after' : Database} (h : Counted most same value value' after after')
    (hmost : most ≤ most') (hsame : same' → same) :
    Counted most' same' value value' after after' :=
  { h with
    le_most := Nat.le_trans h.le_most hmost
    eq := fun h' => h.eq (hsame h') }

/-- A database takes the account of every signer for existing that may begin with one of these
authorizations. -/
def Recognizes (config : Config) (world : World) (authorizations : List Authorization)
    (db : Database) : Prop :=
  ∀ authorization ∈ authorizations, ∀ signer, authorization.Introduces config signer →
    world.Touches signer ∨ db.overlay.Confirms signer

theorem Recognizes.extend {db after : Database} {world last : World}
    {authorization : Authorization} {rest : List Authorization}
    (h : Recognizes config world (authorization :: rest) db) (hafter : after.Extends db)
    (hlast : ∀ signer, world.Touches signer → last.Touches signer) :
    Recognizes config last rest after :=
  fun later hlater signer hintroduces =>
    (h later (List.mem_cons_of_mem _ hlater) signer hintroduces).imp (hlast signer)
      hafter.confirms

/-- An authorization that applies to an empty account is the first of its signer. -/
theorem introduces_of_applies {authorization : Authorization} {signer : Address}
    {account : Account} (hsigner : authorization.authority = some signer)
    (hchain : ¬ (authorization.chainId ≠ 0 ∧
      authorization.chainId ≠ BitVec.ofNat 256 config.chainId.toNat))
    (happlies : authorization.applies account = true) (hempty : account.isEmpty = true) :
    authorization.Introduces config signer := by
  unfold Authorization.applies at happlies
  unfold Account.isEmpty at hempty
  simp only [Bool.and_eq_true, decide_eq_true_eq] at happlies hempty
  refine ⟨hsigner, happlies.2.trans hempty.1.1, ?_⟩
  by_cases hzero : authorization.chainId = 0
  · exact .inl hzero
  · exact .inr (Decidable.of_not_not fun hne => hchain ⟨hzero, hne⟩)

/-- A signer is new only where its account is empty, and then this is its first authorization,
so a database that recognizes it does not take it for new. -/
theorem Recognizes.not_new {db after : Database} {authorization : Authorization}
    {rest : List Authorization} {signer : Address} {entry : AccessedAccount}
    (h : Recognizes config world (authorization :: rest) db) (hafter : after.Extends db)
    (hintroduces : entry.account.isEmpty = true → authorization.Introduces config signer)
    (htouched : world.Touches signer → entry.touched = true) :
    ¬ (entry.account.isEmpty && after.overlay.isAbsent signer && !entry.touched) = true := by
  intro hnew
  simp only [Bool.and_eq_true, Bool.not_eq_true'] at hnew
  obtain ⟨⟨hempty, habsent⟩, huntouched⟩ := hnew
  rcases h authorization List.mem_cons_self signer (hintroduces hempty) with htouches | hconfirms
  · rw [htouched htouches] at huntouched
    cases huntouched
  · rw [(hafter.confirms hconfirms).2] at habsent
    cases habsent

/-- A fork counts every signer to whose account an authorization applies. A database counts as
many if it recognizes those whose accounts begin. -/
theorem compares_applyAuthorizations (config : Config) (authorizations : List Authorization)
    {db other : Database} {existing existing' : Nat} (h : db.Alike other)
    (hdb : ∀ address, db.overlay.Confirms address) (hbacked : world.Backed db.overlay)
    (hbacked' : world.Backed other.overlay) (hle : existing' ≤ existing) :
    db.Compares other (applyAuthorizations config authorizations world existing)
      (applyAuthorizations config authorizations world existing')
      (Counted (existing + authorizations.length)
        (existing' = existing ∧ Recognizes config world authorizations other)) := by
  -- The databases learn of one signer after the other, and the counts may come apart.
  induction authorizations generalizing db other world existing existing' with
  | nil => exact .pure ⟨rfl, hbacked, hbacked', Nat.le_refl _, hle, fun hsame => hsame.1⟩
  | cons authorization rest ih =>
      have hskip : db.Compares other (applyAuthorizations config rest world existing)
          (applyAuthorizations config rest world existing')
          (Counted (existing + (rest.length + 1)) (existing' = existing ∧
            Recognizes config world (authorization :: rest) other)) :=
        (ih h hdb hbacked hbacked' hle).mono fun _ _ _ _ _ _ hcounted =>
          hcounted.weaken (by omega)
            (.imp_right fun hall => hall.extend (.refl other) fun _ => id)
      unfold applyAuthorizations
      dsimp only
      split
      next => exact hskip
      next signer hsigner =>
        split
        next => exact hskip
        next hconsidered =>
          refine (Compares.of_twin (twin_obtainAccount world signer) h hbacked hbacked').bind ?_
          rintro - - middle middle' hmiddle hmiddle' ⟨-, ⟨hbacked, hheld⟩, hbacked', hheld'⟩
          refine .get_bind ?_
          have halike := h.extend hmiddle hmiddle'
          have hsame := halike.agree.account signer hheld hheld'
          have hloaded : (world.load middle.overlay signer).Backed middle.overlay :=
            hbacked.load hheld
          have hloaded' : (world.load middle.overlay signer).Backed middle'.overlay :=
            World.load_congr hsame world ▸ hbacked'.load hheld'
          have htouched := fun address (h : world.Touches address) => h.load middle.overlay signer
          have hexists := fun address => hmiddle.confirms (hdb address)
          rw [← World.load_congr hsame, ← World.accessed_congr hsame, (hexists signer).2]
          generalize world.load middle.overlay signer = loaded at *
          generalize hentry : loaded.accessed middle.overlay signer = entry
          split
          next =>
            refine (ih halike hexists hloaded hloaded' hle).mono ?_
            intro _ _ _ _ _ _ hcounted
            exact hcounted.weaken (by simp)
              (.imp_right fun hall => hall.extend hmiddle' htouched)
          next happlies =>
            have hfirst : entry.account.isEmpty = true → authorization.Introduces config signer :=
              introduces_of_applies hsigner (fun hforeign => hconsidered (.inl hforeign))
                (by simpa using happlies)
            rw [Bool.and_false, Bool.false_and, if_neg Bool.false_ne_true]
            refine (ih halike hexists (hloaded.put hheld _) (hloaded'.put hheld' _) ?_).mono ?_
            · split
              next => exact Nat.le_succ_of_le hle
              next => exact Nat.succ_le_succ hle
            · intro _ _ _ _ _ _ hcounted
              refine hcounted.weaken (by simp only [List.length_cons]; omega)
                fun ⟨heq, hall⟩ => ⟨?_, hall.extend hmiddle' ?_⟩
              · rw [if_neg (hall.not_new hmiddle' hfirst ?_), heq]
                exact fun h => hentry ▸ (htouched signer h).accessed middle.overlay
              · exact fun address h => (htouched address h).put fun _ => rfl

/-- Only kind 4 has authorizations. -/
theorem compares_authorize (config : Config) {db other : Database} (h : db.Alike other)
    (hdb : tx.kind = 4 → ∀ address, db.overlay.Confirms address) (hbacked : world.Backed db.overlay)
    (hbacked' : world.Backed other.overlay) (hcaller : world.Touches tx.caller) :
    db.Compares other (authorize config tx world) (authorize config tx world)
      (Counted tx.authorizations.length
        (∀ signer, tx.Introduces config signer → other.overlay.Confirms signer)) := by
  unfold authorize
  split
  next hkind =>
    refine (compares_applyAuthorizations config tx.authorizations h (hdb hkind) hbacked hbacked'
      (Nat.le_refl 0)).mono fun _ _ _ _ _ _ hcounted =>
        hcounted.weaken (Nat.le_of_eq (Nat.zero_add _)) fun hall => ?_
    refine ⟨rfl, fun authorization hmem signer hintroduces => ?_⟩
    by_cases hsigner : signer = tx.caller
    · exact .inl (hsigner ▸ hcaller)
    · exact .inr (hall signer ⟨hkind, hsigner, authorization, hmem, hintroduces⟩)
  next => exact .pure ⟨rfl, hbacked, hbacked', Nat.zero_le _, Nat.le_refl 0, fun _ => rfl⟩

/-! ## Whole transactions -/

/-- Two transactions ended alike, but the second one has had at most as many signers that exist,
and none less if `same` holds. -/
def SettledAlike (config : Config) (tx : Transaction) (gas : IntrinsicGas) (same : Prop)
    (value value' : ExecutionResult × World) : Prop :=
  ∃ result existing existing', existing' ≤ existing ∧ existing ≤ tx.authorizations.length ∧
    value.1 = .ofResult result
      (settle config.fork tx.gasLimit.toNat gas.floor result (12500 * existing)) ∧
    value'.1 = .ofResult result
      (settle config.fork tx.gasLimit.toNat gas.floor result (12500 * existing')) ∧
    (same → value' = value)

/-- What is paid out may differ, but where it does not, the worlds do not either. -/
theorem compares_payOut {db other : Database} (h : db.Alike other)
    (hbacked : world.Backed db.overlay) (hbacked' : world.Backed other.overlay)
    (hcaller : db.overlay.Holds (.account tx.caller))
    (hcaller' : other.overlay.Holds (.account tx.caller)) (config : Config) (block : BlockEnv)
    (settlement settlement' : Settlement) :
    db.Compares other (payOut config block tx settlement world)
      (payOut config block tx settlement' world)
      fun last last' _ _ => settlement' = settlement → last' = last := by
  have hcomes := closed_comes.payOut config block tx
  obtain ⟨last, after, hafter, -, hrun⟩ := (hcomes settlement world db).succeeds h.succeeds
  obtain ⟨last', after', hafter', -, hrun'⟩ := (hcomes settlement' world other).succeeds h.succeeds'
  refine ⟨after, after', hafter, hafter', .inr ⟨last, last', hrun, hrun', ?_⟩⟩
  rintro rfl
  obtain ⟨result, _, _, -, -, htwin, htwin', -⟩ := twin_payOut config block tx settlement' world
    db other h ⟨hbacked, hcaller⟩ ⟨hbacked', hcaller'⟩
  rw [htwin] at hrun
  rw [htwin'] at hrun'
  exact Except.ok.inj ((Prod.mk.inj hrun').1.symm.trans (Prod.mk.inj hrun).1)

/-- A transaction comes to the same machine result on databases that read the same, and to the
same world if the second one confirms the signers whose accounts begin. Where there can be
signers, nothing is absent from the first one. -/
theorem compares_runTransaction {db other : Database} (h : db.Alike other)
    (hdb : tx.kind = 4 → ∀ address, db.overlay.Confirms address) (config : Config)
    (block : BlockEnv) (gas : IntrinsicGas) :
    db.Compares other (runTransaction config block tx gas) (runTransaction config block tx gas)
      fun value value' _ _ => SettledAlike config tx gas
        (∀ signer, tx.Introduces config signer → other.overlay.Confirms signer) value value' := by
  have hempty (overlay : Overlay) : (openingWorld config.fork block).Backed overlay := by
    intro address hcontains
    simp [openingWorld] at hcontains
  refine ((Compares.of_twin (twin_payUp config block tx _) h (hempty _) (hempty _)).leaving
    (leaves_payUp config block tx _)).bind ?_
  rintro _ world db₁ other₁ hdb₁ hother₁ ⟨⟨rfl, ⟨hbacked, hheld⟩, hbacked', hheld'⟩, hcaller⟩
  have h₁ := h.extend hdb₁ hother₁
  refine ((Compares.of_twin (twin_accessListed tx world) h₁ hbacked hbacked').leaving
    (leaves_accessListed tx hcaller)).bind ?_
  rintro _ world db₂ other₂ hdb₂ hother₂ ⟨⟨rfl, hbacked, hbacked'⟩, hcaller⟩
  have h₂ := h₁.extend hdb₂ hother₂
  have hexists := fun hkind address => hdb₂.confirms (hdb₁.confirms (hdb hkind address))
  refine (compares_authorize config h₂ hexists hbacked hbacked' hcaller).bind ?_
  rintro ⟨_, existing⟩ ⟨world, existing'⟩ db₃ other₃ hdb₃ hother₃
    ⟨rfl, hbacked, hbacked', hmost, hle, heq⟩
  have h₃ := h₂.extend hdb₃ hother₃
  have hgrows := fun address hheld => hdb₃.grows address (hdb₂.grows address hheld)
  have hgrows' := fun address hheld => hother₃.grows address (hother₂.grows address hheld)
  refine (Compares.of_twin (twin_openFirst _ tx _ world) h₃ ⟨hbacked, hgrows _ hheld⟩
    ⟨hbacked', hgrows' _ hheld'⟩).bind ?_
  rintro _ first db₄ other₄ hdb₄ hother₄ ⟨rfl, hbacked, hbacked'⟩
  have h₄ := h₃.extend hdb₄ hother₄
  refine (Compares.of_twin (twin_runMachine _ _ first) h₄ hbacked hbacked').bind ?_
  rintro _ ⟨result, world⟩ db₅ other₅ hdb₅ hother₅ ⟨rfl, hbacked, hbacked'⟩
  have h₅ := h₄.extend hdb₅ hother₅
  refine (compares_payOut h₅ hbacked hbacked' (hdb₅.grows _ (hdb₄.grows _ (hgrows _ hheld)))
    (hother₅.grows _ (hother₄.grows _ (hgrows' _ hheld'))) config block _ _).bind ?_
  rintro last last' - - - - hlast
  refine .pure ⟨result, existing, existing', hle, hmost, rfl, rfl, fun hconfirms => ?_⟩
  have hsame : existing' = existing :=
    heq fun signer hintroduces => hother₂.confirms (hother₁.confirms (hconfirms signer hintroduces))
  rw [hsame] at hlast ⊢
  rw [hlast rfl]

theorem SettledAlike.weaken {gas : IntrinsicGas} {same same' : Prop}
    {value value' : ExecutionResult × World} (h : SettledAlike config tx gas same value value')
    (hsame : same' → same) : SettledAlike config tx gas same' value value' := by
  obtain ⟨result, existing, existing', hle, hmost, hfirst, hsecond, heq⟩ := h
  exact ⟨result, existing, existing', hle, hmost, hfirst, hsecond, fun h' => heq (hsame h')⟩

theorem compares_checkAndRun {db other : Database} (h : db.Alike other)
    (hdb : tx.kind = 4 → ∀ address, db.overlay.Confirms address) (config : Config)
    (block : BlockEnv) :
    db.Compares other (checkAndRun config block tx) (checkAndRun config block tx)
      fun value value' _ _ => SettledAlike config tx (intrinsicGas config.fork tx)
        (∀ signer, tx.Introduces config signer → other.overlay.Confirms signer) value value' := by
  have hchecks {db other : Database} (h : db.Alike other) (result : Except Invalid Unit) :=
    Compares.of_twin (@twin_check (fun _ => True) result) h trivial trivial
  unfold checkAndRun
  split
  next lack _ => exact ⟨db, other, .refl db, .refl other, .inl ⟨_, rfl, rfl⟩⟩
  next =>
    refine (hchecks h _).bind fun _ _ db₁ other₁ hdb₁ hother₁ _ => ?_
    have h₁ := h.extend hdb₁ hother₁
    refine (hchecks h₁ _).bind fun _ _ db₂ other₂ hdb₂ hother₂ _ => ?_
    refine (compares_runTransaction (h₁.extend hdb₂ hother₂)
      (fun hkind address => hdb₂.confirms (hdb₁.confirms (hdb hkind address)))
      config block _).mono ?_
    intro _ _ _ _ _ _ hsettled
    exact hsettled.weaken fun hconfirms signer hintroduces =>
      hother₂.confirms (hother₁.confirms (hconfirms signer hintroduces))

end Evm

end ForkReplay
