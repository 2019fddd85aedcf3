import ForkReplay.Replay.Session

/-!
# Endpoints without a host

An endpoint is the scheme of a websocket and what follows it, which starts with an authority:
maybe a user, the host, and maybe a port. The check of an endpoint looks at the first character
behind the scheme only. It lets every endpoint with a host pass, and of those without one it
refuses two kinds. What is refused is told as it was given, and never dialled.
-/

namespace ForkReplay

namespace Settings

/-- The schemes of websockets. -/
def schemes : List (List Char) := ["ws://".toList, "wss://".toList]

/-- Behind a scheme, and without the blanks around it, the endpoint consists of `rest`. -/
def LeadsTo (settings : Settings) (rest : List Char) : Prop :=
  ∃ scheme ∈ schemes, Text.trimChars settings.url.toList = scheme ++ rest

/-- The authority in what follows a scheme. A path, a query or a fragment ends it. -/
def authorityOf (rest : List Char) : List Char :=
  rest.takeWhile fun c => c ≠ '/' ∧ c ≠ '?' ∧ c ≠ '#'

/-- What an authority holds behind the user. -/
def locationOf (authority : List Char) : List Char :=
  (authority.reverse.takeWhile (· ≠ '@')).reverse

/-- The host in an authority, which ends at its port. An address in brackets is a whole. -/
def hostOf (authority : List Char) : List Char :=
  let location := locationOf authority
  if location.head? = some '[' then location.takeWhile (· ≠ ']') ++ [']']
  else location.takeWhile (· ≠ ':')

/-- The endpoint is that of a websocket, and its authority names a host. -/
def NamesHost (settings : Settings) : Prop :=
  ∃ rest, settings.LeadsTo rest ∧ hostOf (authorityOf rest) ≠ []

variable {settings : Settings} {rest : List Char}

/-! ## Authorities -/

theorem authority?_eq_some_iff : settings.authority? = some rest ↔ settings.LeadsTo rest := by
  unfold authority? LeadsTo
  generalize Text.trimChars settings.url.toList = chars
  constructor
  · intro h
    split at h
    next =>
      cases h
      exact ⟨"wss://".toList, by simp [schemes], rfl⟩
    next =>
      cases h
      exact ⟨"ws://".toList, by simp [schemes], rfl⟩
    next => cases h
  · rintro ⟨scheme, hscheme, rfl⟩
    simp only [schemes, List.mem_cons, List.not_mem_nil, or_false] at hscheme
    rcases hscheme with rfl | rfl
    · rfl
    · rfl

theorem LeadsTo.unique {rest' : List Char} (h : settings.LeadsTo rest)
    (h' : settings.LeadsTo rest') : rest = rest' :=
  Option.some.inj ((authority?_eq_some_iff.mpr h).symm.trans (authority?_eq_some_iff.mpr h'))

theorem hostOf_eq_nil_iff {authority : List Char} :
    hostOf authority = [] ↔
      locationOf authority = [] ∨ (locationOf authority).head? = some ':' := by
  unfold hostOf
  cases locationOf authority with
  | nil => simp
  | cons c location =>
      by_cases hbracket : c = '['
      · simp [hbracket]
      · by_cases hcolon : c = ':'
        · simp [hcolon]
        · simp [hbracket, hcolon]

theorem locationOf_of_userless {authority : List Char} (h : '@' ∉ authority) :
    locationOf authority = authority := by
  have hall : ∀ c ∈ authority.reverse, decide (c ≠ '@') = true := by
    intro c hc
    have hmem : c ∈ authority := List.mem_reverse.mp hc
    exact decide_eq_true fun heq => h (heq ▸ hmem)
  have hwhole : authority.reverse.takeWhile (· ≠ '@') = authority.reverse := by
    simpa using @List.takeWhile_append_of_pos _ _ _ [] hall
  rw [locationOf, hwhole, List.reverse_reverse]

theorem authorityOf_cons_of_ends {c : Char} (h : c = '/' ∨ c = '?' ∨ c = '#') :
    authorityOf (c :: rest) = [] := by
  rcases h with rfl | rfl | rfl
  · rfl
  · rfl
  · rfl

theorem authorityOf_cons {c : Char} (h : ¬ (c = '/' ∨ c = '?' ∨ c = '#')) :
    authorityOf (c :: rest) = c :: authorityOf rest := by
  simp only [not_or] at h
  exact List.takeWhile_cons_of_pos (decide_eq_true h)

/-- What has a host starts with neither of the marks that end an authority. -/
theorem exists_cons_of_host (h : hostOf (authorityOf rest) ≠ []) :
    ∃ c later, rest = c :: later ∧ ¬ (c = '/' ∨ c = '?' ∨ c = '#') := by
  cases rest with
  | nil => exact absurd rfl h
  | cons c later =>
      refine ⟨c, later, rfl, fun hends => ?_⟩
      rw [authorityOf_cons_of_ends hends] at h
      exact h rfl

/-- Where there is no user, the first character tells whether there is a host. -/
theorem hostOf_ne_nil_iff_of_userless {c : Char} (huser : '@' ∉ authorityOf (c :: rest)) :
    hostOf (authorityOf (c :: rest)) ≠ [] ↔ c ∉ ['/', '?', '#', ':'] := by
  rw [Ne, hostOf_eq_nil_iff, locationOf_of_userless huser]
  by_cases hends : c = '/' ∨ c = '?' ∨ c = '#'
  · rw [authorityOf_cons_of_ends hends]
    rcases hends with rfl | rfl | rfl <;> simp
  · rw [authorityOf_cons hends]
    simp only [not_or] at hends
    simp [hends]

/-! ## The check -/

theorem validate_of_leadsTo_cons {c : Char} (h : settings.LeadsTo (c :: rest)) (hslash : c ≠ '/') :
    settings.validate = .ok () := by
  rw [validate, authority?_eq_some_iff.mpr h]
  split
  next hnone => cases hnone
  next hnil => cases hnil
  next hcons =>
    cases hcons
    exact absurd rfl hslash
  next => rfl

/-- An endpoint passes if anything but a slash follows its scheme. Otherwise it is told as it was
given. -/
theorem validate_cases (settings : Settings) :
    (∃ c rest, settings.LeadsTo (c :: rest) ∧ c ≠ '/' ∧ settings.validate = .ok ()) ∨
      (∀ c rest, settings.LeadsTo (c :: rest) → c = '/') ∧
        ∃ reason, settings.validate = .error (.invalidUrl settings.url reason) := by
  cases hauthority : settings.authority? with
  | none =>
      refine .inr ⟨fun c rest hleads => ?_, _, by rw [validate, hauthority]⟩
      rw [authority?_eq_some_iff.mpr hleads] at hauthority
      cases hauthority
  | some body =>
      have hbody := authority?_eq_some_iff.mp hauthority
      cases body with
      | nil =>
          refine .inr ⟨fun c rest hleads => ?_, _, by rw [validate, hauthority]⟩
          cases hbody.unique hleads
      | cons c rest =>
          by_cases hslash : c = '/'
          · subst hslash
            refine .inr ⟨fun c rest hleads => ?_, "missing host", ?_⟩
            · cases hbody.unique hleads
              rfl
            · rw [validate, hauthority]
              rfl
          · exact .inl ⟨c, rest, hbody, hslash, validate_of_leadsTo_cons hbody hslash⟩

theorem validate_eq_ok_iff :
    settings.validate = .ok () ↔ ∃ c rest, settings.LeadsTo (c :: rest) ∧ c ≠ '/' := by
  constructor
  · intro hok
    rcases settings.validate_cases with ⟨c, rest, hleads, hslash, -⟩ | ⟨-, reason, herror⟩
    · exact ⟨c, rest, hleads, hslash⟩
    · rw [herror] at hok
      cases hok
  · rintro ⟨c, rest, hleads, hslash⟩
    exact validate_of_leadsTo_cons hleads hslash

/-- What is refused is told as it was given. -/
theorem exists_validate_eq_error (h : settings.validate ≠ .ok ()) :
    ∃ reason, settings.validate = .error (.invalidUrl settings.url reason) := by
  rcases settings.validate_cases with ⟨c, rest, -, -, hok⟩ | ⟨-, herror⟩
  · exact absurd hok h
  · exact herror

theorem NamesHost.validate (h : settings.NamesHost) : settings.validate = .ok () := by
  obtain ⟨rest, hleads, hhost⟩ := h
  obtain ⟨c, later, rfl, hends⟩ := exists_cons_of_host hhost
  exact validate_of_leadsTo_cons hleads fun hslash => hends (.inl hslash)

end Settings

/-! ## Connecting -/

section Connecting

variable {N : Type} {settings : Settings} {error : ReplayError}

/-- An endpoint that is refused is not dialled. -/
theorem Connection.connect_of_refused (h : settings.validate = .error error) (canFork : Bool)
    (precompiles : Evm.Precompiles) :
    (Connection.connect settings canFork precompiles :
      ExceptT ReplayError (Contacting N) _).run = .done (.error error) := by
  rw [connect, dial, h]
  rfl

theorem Session.connect_of_refused {session : Session N}
    (h : session.settings.validate = .error error) :
    session.connect = .done (.error error, session) := by
  rw [connect, Connection.connect_of_refused h]
  rfl

end Connecting

/-- The check of an endpoint takes any character but a slash behind the scheme for the start of a
host. So every endpoint with a host passes. Of those without one and without a user, only an
empty rest and a slash are refused, and not a query, a fragment or a port. Whatever is refused
is told as it was given; then no endpoint is dialled and a session stays as it is. -/
theorem Settings.validate_reads_first_character {N : Type} (settings : Settings) :
    (settings.validate = .ok () ↔ ∃ c rest, settings.LeadsTo (c :: rest) ∧ c ≠ '/') ∧
      (settings.NamesHost → settings.validate = .ok ()) ∧
      (∀ c rest, settings.LeadsTo (c :: rest) → '@' ∉ authorityOf (c :: rest) →
        (settings.NamesHost ↔ c ∉ ['/', '?', '#', ':'])) ∧
      (settings.validate ≠ .ok () → ∃ reason,
        settings.validate = .error (.invalidUrl settings.url reason) ∧
        (∀ canFork precompiles, (Connection.connect settings canFork precompiles :
            ExceptT ReplayError (Contacting N) _).run =
          .done (.error (.invalidUrl settings.url reason))) ∧
        ∀ session : Session N, session.settings = settings →
          session.connect = .done (.error (.invalidUrl settings.url reason), session)) := by
  refine ⟨validate_eq_ok_iff, NamesHost.validate, ?_, ?_⟩
  · intro c rest hleads huser
    rw [← hostOf_ne_nil_iff_of_userless huser]
    constructor
    · rintro ⟨rest', hleads', hhost⟩
      rwa [hleads.unique hleads']
    · exact fun hhost => ⟨_, hleads, hhost⟩
  · intro hrefused
    obtain ⟨reason, herror⟩ := exists_validate_eq_error hrefused
    refine ⟨reason, herror, Connection.connect_of_refused herror, ?_⟩
    rintro session rfl
    exact Session.connect_of_refused herror

/-- A host between a user and a port, a query in place of a host, and a session that has to refuse
its endpoint. -/
theorem Settings.validate_of_host_query_path :
    let named : Settings := { url := " wss://me@[::1]:8546/ws " }
    let queried : Settings := { url := "ws://?chain=1" }
    let session : Session Unit :=
      { settings := { url := "ws:///path" }
        connection := some { simulator := { settings := { url := "" }, chainId := 1 }, node := () } }
    named.NamesHost ∧ named.validate = .ok () ∧
      queried.LeadsTo "?chain=1".toList ∧ '@' ∉ authorityOf "?chain=1".toList ∧
      ¬ queried.NamesHost ∧ session.settings.validate ≠ .ok () ∧
      ∃ reason, session.connect = .done (.error (.invalidUrl "ws:///path" reason), session) := by
  intro named queried session
  have hnamed : named.NamesHost :=
    ⟨"me@[::1]:8546/ws".toList, ⟨"wss://".toList, by decide, by decide +kernel⟩, by decide⟩
  have hqueried : queried.LeadsTo "?chain=1".toList :=
    ⟨"ws://".toList, by decide, by decide +kernel⟩
  have huser : '@' ∉ authorityOf "?chain=1".toList := by decide
  have hrefused : session.settings.validate ≠ .ok () := by
    have hleads : session.settings.LeadsTo "/path".toList :=
      ⟨"ws://".toList, by decide, by decide +kernel⟩
    intro hok
    obtain ⟨c, rest, hcons, hslash⟩ := Settings.validate_eq_ok_iff.mp hok
    cases hcons.unique hleads
    exact hslash rfl
  obtain ⟨-, hpasses, -⟩ := Settings.validate_reads_first_character (N := Unit) named
  obtain ⟨-, -, hfirst, -⟩ := Settings.validate_reads_first_character (N := Unit) queried
  obtain ⟨-, -, -, hconnect⟩ := Settings.validate_reads_first_character (N := Unit) session.settings
  obtain ⟨reason, -, -, hsession⟩ := hconnect hrefused
  refine ⟨hnamed, hpasses hnamed, hqueried, huser, ?_, hrefused, reason, hsession session rfl⟩
  rw [hfirst '?' "chain=1".toList hqueried huser]
  decide

/-- A port alone passes for an endpoint with a host. -/
theorem Settings.validate_of_port_alone :
    let settings : Settings := { url := "ws://:8546" }
    settings.validate = .ok () ∧ ¬ settings.NamesHost := by
  intro settings
  have hleads : settings.LeadsTo ":8546".toList :=
    ⟨"ws://".toList, by decide, by decide +kernel⟩
  refine ⟨Settings.validate_of_leadsTo_cons hleads (by decide), ?_⟩
  rintro ⟨rest, hrest, hhost⟩
  rw [hrest.unique hleads] at hhost
  exact hhost (by decide)

end ForkReplay
