import Netcatty.OrderedMap
import Netcatty.RedactionPolicy

/-!
The privacy sessions of the AI chats.

A chat is pinned when it first reaches its session: to a redactor of its own while the policy
in force is enabled, and to no redactor while it is disabled.  A pinned chat keeps its policy
and its redactor or is retired, and a retired chat is never served again
(`chat_never_changes_policy`).  What a redactor does to a value is a parameter.
-/

namespace Netcatty.AiPrivacy

open Redaction List Option OrderedMap

def CONFIG_ERROR : JsError := .error (text "Invalid AI privacy configuration")

def LOADING_ERROR : JsError := .error (text "AI privacy settings are still loading; try again")

def SESSION_ERROR : JsError :=
  .error (text "AI privacy session is unavailable or its settings changed; start a new chat")

def SESSION_ID_ERROR : JsError := .error (text "AI privacy requires a valid chat session")

def LIMIT_ERROR : JsError := .error (text "AI privacy session limit reached; close a chat and try again")

def VALUE_ERROR : JsError := .error (text "AI privacy could not safely process this value")

def TOKEN_ERROR : JsError := .error (text "Unknown AI privacy token; start a new chat")

def VALUE_LIMIT_ERROR : JsError := .error (text "AI privacy session limit reached; start a new chat")

/-- The redaction sessions: a new one for a policy (and its number), and what one does to a
value.  Redacting may teach it something even where it fails. -/
structure Redactors (V R : Type) where
  createRedactionSession : RedactionConfig → ℕ → R
  restore : R → V → Checked V
  redact : R → V → R × Checked V

/-- The options of `createAiPrivacyService`, as it accepts them. -/
structure ServiceOptions where
  maxSessions : ℕ
  initialized : Bool
  positive : 1 ≤ maxSessions
  bounded : maxSessions ≤ 4096

/-- The state of the service.  A redactor is named by its place among all that were made. -/
structure AiPrivacyService (R : Type) where
  config : RedactionConfig
  fingerprint : JsString
  invalidConfiguration : Bool
  configurationInitialized : Bool
  sessions : OrderedMap JsString ℕ
  disabledSessions : OrderedMap JsString Unit
  closedSessions : OrderedMap JsString Unit
  redactors : List R

inductive PrivacyCall (V : Type) where
  | configure (input : Option JsonValue)
  | invalidateConfiguration
  | checkSession (chatSessionId : JsString)
  | redact (chatSessionId : JsString) (value : V)
  | restore (chatSessionId : JsString) (value : V)
  | clearSession (chatSessionId : JsString)

/-- What a call returns. -/
inductive Reply (V : Type) where
  | config (config : RedactionConfig)
  | nothing
  | enabled (enabled : Bool)
  | value (value : V)

/-- `validateId`. -/
def isValidId (chatSessionId : JsString) : Bool :=
  !(trim chatSessionId).isEmpty && chatSessionId.length ≤ 512 && !chatSessionId.any (·.val = 0)

def serviceError : JsError → JsError
  | .error message =>
    if message = text "Unknown External MCP redaction token; reconnect the client" then TOKEN_ERROR
    else if message = text "External MCP redaction session limit reached; reconnect the client" then
      VALUE_LIMIT_ERROR
    else VALUE_ERROR
  | _ => VALUE_ERROR

namespace AiPrivacyService

variable {V R : Type}

variable (tools : PolicyTools)

/-- A service before its first call. -/
def create (options : ServiceOptions) : AiPrivacyService R where
  config := .default
  fingerprint := Redaction.fingerprint tools .default
  invalidConfiguration := false
  configurationInitialized := options.initialized
  sessions := .empty
  disabledSessions := .empty
  closedSessions := .empty
  redactors := []

variable (service : AiPrivacyService R)

def retire (chatSessionId : JsString) : AiPrivacyService R :=
  { service with
    sessions := service.sessions.delete chatSessionId
    disabledSessions := service.disabledSessions.delete chatSessionId
    closedSessions := service.closedSessions.set chatSessionId () }

def retireAll : AiPrivacyService R :=
  let enabled := service.sessions.keys.foldl retire service
  enabled.disabledSessions.keys.foldl retire enabled

def invalidateConfiguration : AiPrivacyService R :=
  { service with invalidConfiguration := true }.retireAll

def requireValidConfig : Checked Unit := do
  ensure (!service.invalidConfiguration) CONFIG_ERROR
  ensure service.configurationInitialized LOADING_ERROR

def configure (input : Option JsonValue) :
    Checked RedactionConfig × AiPrivacyService R :=
  match normalizeRedactionConfig tools input with
  | none => (.error CONFIG_ERROR, service.invalidateConfiguration)
  | some next =>
    let nextFingerprint := Redaction.fingerprint tools next
    let kept := if nextFingerprint ≠ service.fingerprint then service.retireAll else service
    (.ok next, { kept with
      config := next
      fingerprint := nextFingerprint
      invalidConfiguration := false
      configurationInitialized := true })

variable (redactors : Redactors V R) (maxSessions : ℕ)

/-- `getSession`: the redactor of the chat, or none while privacy is disabled. -/
def getSession (service : AiPrivacyService R)
    (chatSessionId : JsString) (create : Bool) : Checked (Option ℕ) × AiPrivacyService R :=
  match service.requireValidConfig with
  | .error error => (.error error, service)
  | .ok () =>
    if !isValidId chatSessionId then (.error SESSION_ID_ERROR, service)
    else if service.closedSessions.has chatSessionId then (.error SESSION_ERROR, service)
    else if !service.config.enabled then
      if !create && !service.disabledSessions.has chatSessionId then (.error SESSION_ERROR, service)
      else (.ok none, { service with
        disabledSessions := service.disabledSessions.set chatSessionId () })
    else
      match service.sessions.get? chatSessionId with
      | some redactor => (.ok (some redactor), service)
      | none =>
        if !create then (.error SESSION_ERROR, service)
        else if maxSessions ≤ service.sessions.size then (.error LIMIT_ERROR, service)
        else
          (.ok (some service.redactors.length), { service with
            sessions := service.sessions.set chatSessionId service.redactors.length
            redactors := service.redactors ++
              [redactors.createRedactionSession service.config service.redactors.length] })

/-- `transform("restore", …)`. -/
def restore (redactors : Redactors V R) (maxSessions : ℕ) (service : AiPrivacyService R)
    (chatSessionId : JsString) (value : V) : Checked V × AiPrivacyService R :=
  let (session, service) := service.getSession redactors maxSessions chatSessionId false
  match session with
  | .error error => (.error error, service)
  | .ok none => (.ok value, service)
  | .ok (some place) =>
    match service.redactors[place]? with
    | none => (.error VALUE_ERROR, service)
    | some redactor => ((redactors.restore redactor value).mapError serviceError, service)

/-- `transform("redact", …)`: the aliases of the value are restored first, to see that they
are known. -/
def redact (redactors : Redactors V R) (maxSessions : ℕ) (service : AiPrivacyService R)
    (chatSessionId : JsString) (value : V) : Checked V × AiPrivacyService R :=
  let (session, service) := service.getSession redactors maxSessions chatSessionId true
  match session with
  | .error error => (.error error, service)
  | .ok none => (.ok value, service)
  | .ok (some place) =>
    match service.redactors[place]? with
    | none => (.error VALUE_ERROR, service)
    | some redactor =>
      match redactors.restore redactor value with
      | .error error => (.error (serviceError error), service)
      | .ok _ =>
        let (learned, result) := redactors.redact redactor value
        (result.mapError serviceError, { service with redactors := service.redactors.set place learned })

def clearSession (chatSessionId : JsString) :
    Checked Unit × AiPrivacyService R :=
  if !isValidId chatSessionId then (.error SESSION_ID_ERROR, service)
  else (.ok (), service.retire chatSessionId)

def step
    (service : AiPrivacyService R) : PrivacyCall V → Checked (Reply V) × AiPrivacyService R
  | .configure input => (service.configure tools input).map (·.map .config) id
  | .invalidateConfiguration => (.ok .nothing, service.invalidateConfiguration)
  | .checkSession chatSessionId =>
    (service.getSession redactors maxSessions chatSessionId true).map (·.map fun place => .enabled place.isSome) id
  | .redact chatSessionId value =>
    (service.redact redactors maxSessions chatSessionId value).map (·.map .value) id
  | .restore chatSessionId value =>
    (service.restore redactors maxSessions chatSessionId value).map (·.map .value) id
  | .clearSession chatSessionId => (service.clearSession chatSessionId).map (·.map fun _ => .nothing) id

/-! ## Pinned chats -/

/-- What the chat is pinned to: the redactor that serves it, or none. -/
def pin (chatSessionId : JsString) : Option (Option ℕ) :=
  match service.sessions.get? chatSessionId with
  | some redactor => some (some redactor)
  | none => if service.disabledSessions.has chatSessionId then some none else none

structure Sound (tools : PolicyTools) (service : AiPrivacyService R) : Prop where
  printed : service.fingerprint = Redaction.fingerprint tools service.config
  served : ∀ chat pinned, service.pin chat = some pinned → pinned.isSome = service.config.enabled
  retired : ∀ chat, service.closedSessions.has chat = true → service.pin chat = none

theorem pin_eq_none {service : AiPrivacyService R} {chat : JsString} : service.pin chat = none ↔
      service.sessions.get? chat = none ∧ service.disabledSessions.has chat = false := by
  unfold pin
  cases service.sessions.get? chat with
  | some redactor => simp
  | none => cases service.disabledSessions.has chat <;> simp

theorem sound_create (options : ServiceOptions) :
    (create tools options : AiPrivacyService R).Sound tools :=
  ⟨rfl, fun _ _ same => (some_ne_none _ same.symm).elim, fun _ _ => rfl⟩

/-! ## Retiring -/

variable (service : AiPrivacyService R)

theorem isSome_pin (chat : JsString) :
    (service.pin chat).isSome = (service.sessions.has chat || service.disabledSessions.has chat) := by
  unfold pin OrderedMap.has
  cases service.sessions.get? chat with
  | some redactor => rfl
  | none => cases service.disabledSessions.get? chat <;> rfl

theorem pin_retire (chat other : JsString) :
    (service.retire chat).pin other = if other = chat then none else service.pin other := by
  unfold pin retire OrderedMap.has
  dsimp only
  rw [get?_delete, get?_delete]
  by_cases same : other = chat
  · simp [same]
  · simp [same]

theorem closed_retire (chat other : JsString) : (service.retire chat).closedSessions.has other =
      (decide (other = chat) || service.closedSessions.has other) := by
  unfold retire OrderedMap.has
  dsimp only
  rw [OrderedMap.get?_set]
  by_cases same : other = chat
  · simp [same]
  · simp [same]

theorem foldl_retire (chats : List JsString) (service : AiPrivacyService R) :
    (∀ chat, (chats.foldl retire service).sessions.get? chat =
      if chat ∈ chats then none else service.sessions.get? chat) ∧
      (∀ chat, (chats.foldl retire service).disabledSessions.get? chat =
        if chat ∈ chats then none else service.disabledSessions.get? chat) ∧
      (∀ chat, (chats.foldl retire service).closedSessions.has chat =
        (decide (chat ∈ chats) || service.closedSessions.has chat)) ∧
      (chats.foldl retire service).config = service.config ∧
      (chats.foldl retire service).fingerprint = service.fingerprint := by
  induction chats generalizing service with
  | nil => simp
  | cons first chats ih =>
    obtain ⟨sessions, disabled, closed, config, fingerprint⟩ := ih (service.retire first)
    refine ⟨fun chat => ?_, fun chat => ?_, fun chat => ?_, config, fingerprint⟩
    · rw [foldl_cons, sessions, retire, get?_delete]
      by_cases same : chat = first <;> simp [same]
    · rw [foldl_cons, disabled, retire, get?_delete]
      by_cases same : chat = first <;> simp [same]
    · rw [foldl_cons, closed, closed_retire]
      by_cases same : chat = first <;> simp [same]

/-- Every pinned chat is retired, and nothing else changes. -/
theorem retireAll_spec : (∀ chat, service.retireAll.pin chat = none) ∧
      (∀ chat, service.retireAll.closedSessions.has chat =
        ((service.pin chat).isSome || service.closedSessions.has chat)) ∧
      service.retireAll.config = service.config ∧ service.retireAll.fingerprint = service.fingerprint := by
  obtain ⟨sessions, disabled, closed, config, fingerprint⟩ := foldl_retire service.sessions.keys service
  obtain ⟨sessions', disabled', closed', config', fingerprint'⟩ := foldl_retire
    (service.sessions.keys.foldl retire service).disabledSessions.keys (service.sessions.keys.foldl retire service)
  have gone {V : Type} (map : OrderedMap JsString V) (chat : JsString) :
      (if chat ∈ map.keys then none else map.get? chat) = none := by
    split
    · rfl
    · rename_i absent
      exact get?_eq_none.mpr absent
  refine ⟨fun chat => ?_, fun chat => ?_, config'.trans config, fingerprint'.trans fingerprint⟩
  · refine pin_eq_none.mpr ⟨?_, ?_⟩
    · refine (sessions' chat).trans ?_
      rw [sessions, gone, ite_self]
    · have none_ := (disabled' chat).trans (gone _ chat)
      change (service.retireAll.disabledSessions.get? chat).isSome = false
      exact isSome_eq_false_iff.mpr (isNone_iff_eq_none.mpr none_)
  · have second : chat ∈ (service.sessions.keys.foldl retire service).disabledSessions.keys ↔
        service.sessions.has chat = false ∧ service.disabledSessions.has chat = true := by
      rw [OrderedMap.mem_keys, OrderedMap.has, disabled, if_congr OrderedMap.mem_keys rfl rfl]
      cases service.sessions.has chat <;> simp [OrderedMap.has]
    refine (closed' chat).trans ?_
    rw [closed, isSome_pin, Bool.eq_iff_iff]
    simp only [Bool.or_eq_true, decide_eq_true_eq, second, OrderedMap.mem_keys]
    cases service.sessions.has chat <;> simp

/-! ## What a call does to the pins -/

section Steps

variable {tools : PolicyTools} {service : AiPrivacyService R}

/-- A chat keeps what it is pinned to under the policy in force, or it is retired; and a
retired chat stays retired. -/
structure Follows (service after : AiPrivacyService R) : Prop where
  pinned : ∀ chat pinned, service.pin chat = some pinned →
    (after.pin chat = some pinned ∧ after.fingerprint = service.fingerprint) ∨
      after.closedSessions.has chat = true
  retired : ∀ chat, service.closedSessions.has chat = true → after.closedSessions.has chat = true

theorem Follows.refl (service : AiPrivacyService R) : service.Follows service :=
  ⟨fun _ _ pinned => .inl ⟨pinned, rfl⟩, fun _ closed => closed⟩

theorem Follows.trans {middle after : AiPrivacyService R} (first : service.Follows middle)
    (second : middle.Follows after) : service.Follows after where
  pinned chat pinned held := by
    rcases first.pinned chat pinned held with ⟨kept, same⟩ | closed
    · rcases second.pinned chat pinned kept with ⟨still, also⟩ | closed
      · exact .inl ⟨still, also.trans same⟩
      · exact .inr closed
    · exact .inr (second.retired chat closed)
  retired chat closed := second.retired chat (first.retired chat closed)

theorem follows_retireAll (service : AiPrivacyService R) : service.Follows service.retireAll where
  pinned chat pinned held := by
    refine .inr ?_
    rw [(retireAll_spec service).2.1, held]
    rfl
  retired chat closed := by
    rw [(retireAll_spec service).2.1, closed, Bool.or_true]

theorem sound_retireAll (sound : service.Sound tools) : service.retireAll.Sound tools := by
  obtain ⟨pins, -, config, fingerprint⟩ := retireAll_spec service
  exact ⟨by rw [config, fingerprint, sound.printed],
    fun chat pinned held => (some_ne_none _ (held.symm.trans (pins chat))).elim, fun chat _ => pins chat⟩

/-- An invalid policy, or a policy with another text. -/
def ChangesPolicy (tools : PolicyTools) (service : AiPrivacyService R) : PrivacyCall V → Prop
  | .configure input =>
    ∀ next, normalizeRedactionConfig tools input = some next →
      Redaction.fingerprint tools next ≠ service.fingerprint
  | .invalidateConfiguration => True
  | _ => False

theorem invalidateConfiguration_spec (sound : service.Sound tools) :
    service.invalidateConfiguration.Sound tools ∧ service.Follows service.invalidateConfiguration ∧
      ∀ chat, service.invalidateConfiguration.closedSessions.has chat =
        ((service.pin chat).isSome || service.closedSessions.has chat) := by
  have flagged : ({ service with invalidConfiguration := true } : AiPrivacyService R).Sound tools :=
    ⟨sound.printed, sound.served, sound.retired⟩
  have unchanged : service.Follows { service with invalidConfiguration := true } :=
    ⟨fun _ _ pinned => .inl ⟨pinned, rfl⟩, fun _ closed => closed⟩
  exact ⟨sound_retireAll flagged, unchanged.trans (follows_retireAll _), (retireAll_spec _).2.1⟩

theorem configure_spec (sound : service.Sound tools) (input : Option JsonValue) :
    (service.configure tools input).2.Sound tools ∧ service.Follows (service.configure tools input).2 ∧
      (ChangesPolicy tools service (PrivacyCall.configure input : PrivacyCall V) → ∀ chat,
        (service.configure tools input).2.closedSessions.has chat =
          ((service.pin chat).isSome || service.closedSessions.has chat)) := by
  unfold configure
  cases normalized : normalizeRedactionConfig tools input with
  | none =>
    obtain ⟨kept, follows, closed⟩ := invalidateConfiguration_spec sound
    exact ⟨kept, follows, fun _ => closed⟩
  | some next =>
    dsimp only
    by_cases same : Redaction.fingerprint tools next = service.fingerprint
    · have config : next = service.config := fingerprint_injective tools (same.trans sound.printed)
      rw [if_neg (not_not.mpr same)]
      refine ⟨⟨rfl, fun chat pinned held => ?_, sound.retired⟩, ⟨fun chat pinned held => ?_, fun _ closed => closed⟩,
        fun changes => absurd same (changes next normalized)⟩
      · exact (sound.served chat pinned held).trans (congrArg _ config.symm)
      · exact .inl ⟨held, same⟩
    · rw [if_pos same]
      obtain ⟨pins, closed, -, -⟩ := retireAll_spec service
      refine ⟨⟨rfl, fun chat pinned held => ?_, fun chat _ => pins chat⟩, ⟨fun chat pinned held => ?_, fun chat held => ?_⟩,
        fun _ => closed⟩
      · exact (some_ne_none _ (held.symm.trans (pins chat))).elim
      · exact (follows_retireAll service).pinned chat pinned held |>.imp (fun kept =>
          (some_ne_none _ (kept.1.symm.trans (pins chat))).elim) id
      · exact (follows_retireAll service).retired chat held

/-- The errors of calls that did not reach a session. -/
def REFUSALS : List JsError := [CONFIG_ERROR, LOADING_ERROR, SESSION_ERROR, SESSION_ID_ERROR, LIMIT_ERROR]

/-- The errors of calls that reached their session. -/
def VALUE_ERRORS : List JsError := [VALUE_ERROR, TOKEN_ERROR, VALUE_LIMIT_ERROR]

theorem serviceError_mem (error : JsError) : serviceError error ∈ VALUE_ERRORS := by
  unfold serviceError VALUE_ERRORS
  split
  · split_ifs
    · exact mem_cons_of_mem _ mem_cons_self
    · exact mem_cons_of_mem _ (mem_cons_of_mem _ mem_cons_self)
    · exact mem_cons_self
  · exact mem_cons_self

theorem not_value_error {error : JsError} (refused : error ∈ REFUSALS) : error ∉ VALUE_ERRORS := by
  simp only [REFUSALS, mem_cons, not_mem_nil, or_false] at refused
  rcases refused with rfl | rfl | rfl | rfl | rfl
  all_goals
    simp only [VALUE_ERRORS, mem_cons, not_mem_nil, or_false, CONFIG_ERROR, LOADING_ERROR, SESSION_ERROR,
      SESSION_ID_ERROR, LIMIT_ERROR, VALUE_ERROR, TOKEN_ERROR, VALUE_LIMIT_ERROR, JsError.error.injEq, text_inj]
    decide

/-- A session was reached: nothing but this chat's pin changed, and the chat is pinned now to
what the call got. -/
structure Reaches (service : AiPrivacyService R) (chat : JsString) (got : Option ℕ)
    (after : AiPrivacyService R) : Prop where
  valid : isValidId chat = true
  open_ : service.closedSessions.has chat = false
  pinned : after.pin chat = some got
  served : got.isSome = service.config.enabled
  before : service.pin chat = none ∨ service.pin chat = some got
  others : ∀ other, other ≠ chat → after.pin other = service.pin other
  closed : after.closedSessions = service.closedSessions
  config : after.config = service.config
  fingerprint : after.fingerprint = service.fingerprint

theorem requireValidConfig_error {error : JsError} (refused : service.requireValidConfig = .error error) :
    error ∈ REFUSALS := by
  unfold requireValidConfig ensure at refused
  cases invalid : service.invalidConfiguration with
  | true =>
    rw [invalid] at refused
    cases refused
    exact mem_cons_self
  | false =>
    rw [invalid] at refused
    cases loaded : service.configurationInitialized with
    | true =>
      rw [loaded] at refused
      cases refused
    | false =>
      rw [loaded] at refused
      cases refused
      exact mem_cons_of_mem _ mem_cons_self

theorem getSession_cases (sound : service.Sound tools) (redactors : Redactors V R) (maxSessions : ℕ)
    (chat : JsString) (create : Bool) :
    (∃ error ∈ REFUSALS, service.getSession redactors maxSessions chat create = (.error error, service)) ∨
      ∃ got after, service.getSession redactors maxSessions chat create = (.ok got, after) ∧
        service.Reaches chat got after := by
  unfold getSession
  cases valid : service.requireValidConfig with
  | error error => exact .inl ⟨error, requireValidConfig_error valid, rfl⟩
  | ok loaded =>
    dsimp only
    by_cases id : isValidId chat = true
    swap
    · rw [if_pos (by simpa using id)]
      exact .inl ⟨_, by simp [REFUSALS], rfl⟩
    rw [if_neg (by simpa using id)]
    by_cases closed : service.closedSessions.has chat = true
    · rw [if_pos closed]
      exact .inl ⟨_, by simp [REFUSALS], rfl⟩
    rw [if_neg closed]
    rw [Bool.not_eq_true] at closed
    cases enabled : service.config.enabled with
    | false =>
      rw [if_pos Bool.not_false]
      split
      · exact .inl ⟨_, by simp [REFUSALS], rfl⟩
      · have none_ : service.sessions.get? chat = none := by
          by_contra some_
          obtain ⟨redactor, found⟩ := ne_none_iff_exists'.mp some_
          have served := sound.served chat (some redactor) (by unfold pin; rw [found])
          rw [enabled] at served
          cases served
        refine .inr ⟨none, _, rfl, ⟨id, closed, ?_, enabled.symm, ?_, fun other apart => ?_, rfl, rfl, rfl⟩⟩
        · unfold pin OrderedMap.has
          dsimp only
          rw [none_, OrderedMap.get?_set, if_pos rfl]
          rfl
        · unfold pin
          rw [none_]
          cases service.disabledSessions.has chat
          · exact .inl rfl
          · exact .inr rfl
        · unfold pin OrderedMap.has
          dsimp only
          rw [OrderedMap.get?_set, if_neg apart]
    | true =>
      rw [if_neg (by decide)]
      cases found : service.sessions.get? chat with
      | some redactor =>
        have own : service.pin chat = some (some redactor) := by
          unfold pin
          rw [found]
        exact .inr ⟨_, _, rfl, id, closed, own, enabled.symm, .inr own, fun _ _ => rfl, rfl, rfl, rfl⟩
      | none =>
        dsimp only
        split
        · exact .inl ⟨_, by simp [REFUSALS], rfl⟩
        split
        · exact .inl ⟨_, by simp [REFUSALS], rfl⟩
        have none_ : service.pin chat = none := by
          refine pin_eq_none.mpr ⟨found, ?_⟩
          by_contra listed
          rw [Bool.not_eq_false] at listed
          have served := sound.served chat none (by unfold pin; rw [found, listed]; rfl)
          rw [enabled] at served
          cases served
        refine .inr ⟨_, _, rfl, id, closed, ?_, enabled.symm, .inl none_, fun other apart => ?_, rfl, rfl, rfl⟩
        · unfold pin
          dsimp only
          rw [OrderedMap.get?_set, if_pos rfl]
        · unfold pin
          dsimp only
          rw [OrderedMap.get?_set, if_neg apart]

section

variable {chat : JsString} {got : Option ℕ} {after : AiPrivacyService R}
    (reaches : service.Reaches chat got after)

include reaches

theorem Reaches.follows : service.Follows after where
  pinned other pinned held := by
    refine .inl ⟨?_, reaches.fingerprint⟩
    by_cases same : other = chat
    · subst same
      rcases reaches.before with none_ | own
      · exact (some_ne_none _ (held.symm.trans none_)).elim
      · rw [reaches.pinned, ← own, held]
    · rw [reaches.others other same, held]
  retired other closed := by rw [reaches.closed, closed]

theorem Reaches.sound (sound : service.Sound tools) : after.Sound tools where
  printed := by rw [reaches.fingerprint, reaches.config, sound.printed]
  served other pinned held := by
    rw [reaches.config]
    by_cases same : other = chat
    · subst same
      obtain rfl := Option.some.inj (held.symm.trans reaches.pinned)
      exact reaches.served
    · exact sound.served other pinned ((reaches.others other same).symm.trans held)
  retired other closed := by
    rw [reaches.closed] at closed
    have apart : other ≠ chat := by
      rintro rfl
      rw [reaches.open_] at closed
      cases closed
    rw [reaches.others other apart, sound.retired other closed]

theorem Reaches.withRedactors (made : List R) :
    service.Reaches chat got { after with redactors := made } :=
  ⟨reaches.valid, reaches.open_, reaches.pinned, reaches.served, reaches.before, reaches.others,
    reaches.closed, reaches.config, reaches.fingerprint⟩

end

def session (service : AiPrivacyService R) :
    PrivacyCall V → Checked (Option ℕ)
  | .checkSession chatSessionId => (service.getSession redactors maxSessions chatSessionId true).1
  | .redact chatSessionId _ => (service.getSession redactors maxSessions chatSessionId true).1
  | .restore chatSessionId _ => (service.getSession redactors maxSessions chatSessionId false).1
  | _ => .error SESSION_ERROR

def Serves (chat : JsString) : PrivacyCall V → Prop
  | .checkSession chatSessionId => chatSessionId = chat
  | .redact chatSessionId _ => chatSessionId = chat
  | .restore chatSessionId _ => chatSessionId = chat
  | _ => False

def Answered {α : Type} (service : AiPrivacyService R) (chat : JsString) (asked : Checked (Option ℕ))
    (result : Checked α × AiPrivacyService R) : Prop :=
  (∃ error ∈ REFUSALS, result = (.error error, service)) ∨
    ∃ got, asked = .ok got ∧ service.Reaches chat got result.2 ∧
      ∀ error, result.1 = .error error → error ∈ VALUE_ERRORS

theorem Answered.map {α β : Type} {chat : JsString} {asked : Checked (Option ℕ)}
    {result : Checked α × AiPrivacyService R} (answered : service.Answered chat asked result) (reply : α → β) :
    service.Answered chat asked (result.map (·.map reply) id) := by
  rcases answered with ⟨error, mem, rfl⟩ | ⟨got, same, reaches, failures⟩
  · exact .inl ⟨error, mem, rfl⟩
  · obtain ⟨value, after⟩ := result
    refine .inr ⟨got, same, reaches, fun error failed => ?_⟩
    cases value with
    | ok value => cases failed
    | error reason =>
      cases failed
      exact failures _ rfl

theorem getSession_answered (sound : service.Sound tools) (redactors : Redactors V R) (maxSessions : ℕ)
    (chat : JsString) (create : Bool) :
    service.Answered chat (service.getSession redactors maxSessions chat create).1
      (service.getSession redactors maxSessions chat create) := by
  rcases getSession_cases sound redactors maxSessions chat create with refused | ⟨got, after, found, reaches⟩
  · exact .inl refused
  · rw [found]
    refine .inr ⟨got, rfl, reaches, fun error failed => ?_⟩
    cases failed

theorem mapError_answered {reaches : Prop} (value : Checked V) (held : reaches) :
    reaches ∧ ∀ error, value.mapError serviceError = .error error → error ∈ VALUE_ERRORS := by
  refine ⟨held, fun error failed => ?_⟩
  cases value with
  | ok value => cases failed
  | error reason =>
    cases failed
    exact serviceError_mem reason

section

variable (sound : service.Sound tools) (redactors : Redactors V R) (maxSessions : ℕ)

include sound

theorem restore_answered (chat : JsString) (value : V) :
    service.Answered chat (service.getSession redactors maxSessions chat false).1
      (service.restore redactors maxSessions chat value) := by
  unfold restore
  rcases getSession_cases sound redactors maxSessions chat false with ⟨error, mem, found⟩ | ⟨got, after, found, reaches⟩
  · rw [found]
    exact .inl ⟨error, mem, rfl⟩
  rw [found]
  refine .inr ⟨got, rfl, ?_⟩
  cases got with
  | none => exact mapError_answered (.ok value) reaches
  | some place =>
    dsimp only
    cases after.redactors[place]? with
    | none => exact mapError_answered (.error (.error [])) reaches
    | some redactor => exact mapError_answered _ reaches

theorem redact_answered (chat : JsString) (value : V) :
    service.Answered chat (service.getSession redactors maxSessions chat true).1
      (service.redact redactors maxSessions chat value) := by
  unfold redact
  rcases getSession_cases sound redactors maxSessions chat true with ⟨error, mem, found⟩ | ⟨got, after, found, reaches⟩
  · rw [found]
    exact .inl ⟨error, mem, rfl⟩
  rw [found]
  refine .inr ⟨got, rfl, ?_⟩
  cases got with
  | none => exact mapError_answered (.ok value) reaches
  | some place =>
    dsimp only
    cases after.redactors[place]? with
    | none => exact mapError_answered (.error (.error [])) reaches
    | some redactor =>
      dsimp only
      cases redactors.restore redactor value with
      | error reason => exact mapError_answered (.error reason) reaches
      | ok known => exact mapError_answered _ (reaches.withRedactors _)

theorem step_answered {chat : JsString} {call : PrivacyCall V} (serves : Serves chat call) :
    service.Answered chat (session redactors maxSessions service call)
      (step tools redactors maxSessions service call) := by
  cases call with
  | configure input => exact serves.elim
  | invalidateConfiguration => exact serves.elim
  | clearSession other => exact serves.elim
  | checkSession other =>
    obtain rfl : other = chat := serves
    exact (getSession_answered sound redactors maxSessions other true).map _
  | restore other value =>
    obtain rfl : other = chat := serves
    exact (restore_answered sound redactors maxSessions other value).map _
  | redact other value =>
    obtain rfl : other = chat := serves
    exact (redact_answered sound redactors maxSessions other value).map _

end

theorem clearSession_spec (sound : service.Sound tools) (chat : JsString) :
    (service.clearSession chat).2.Sound tools ∧ service.Follows (service.clearSession chat).2 := by
  unfold clearSession
  split
  · exact ⟨sound, .refl service⟩
  refine ⟨⟨sound.printed, fun other pinned held => ?_, fun other closed => ?_⟩,
    ⟨fun other pinned held => ?_, fun other closed => ?_⟩⟩
  · rw [pin_retire] at held
    split at held
    · cases held
    · exact sound.served other pinned held
  · rw [pin_retire]
    rw [closed_retire] at closed
    by_cases same : other = chat
    · rw [if_pos same]
    · rw [decide_eq_false same, Bool.false_or] at closed
      rw [if_neg same, sound.retired other closed]
  · by_cases same : other = chat
    · refine .inr ?_
      rw [closed_retire, decide_eq_true same, Bool.true_or]
    · refine .inl ⟨?_, rfl⟩
      rw [pin_retire, if_neg same, held]
  · rw [closed_retire, closed, Bool.or_true]

/-- Every call keeps each pinned chat under its policy, or retires it. -/
theorem step_follows (sound : service.Sound tools) (redactors : Redactors V R) (maxSessions : ℕ)
    (call : PrivacyCall V) :
    (step tools redactors maxSessions service call).2.Sound tools ∧
      service.Follows (step tools redactors maxSessions service call).2 := by
  have serving {chat : JsString} (serves : Serves chat call) :
      (step tools redactors maxSessions service call).2.Sound tools ∧
        service.Follows (step tools redactors maxSessions service call).2 := by
    rcases step_answered sound redactors maxSessions serves with ⟨error, -, same⟩ | ⟨got, -, reaches, -⟩
    · rw [same]
      exact ⟨sound, .refl service⟩
    · exact ⟨reaches.sound sound, reaches.follows⟩
  cases call with
  | configure input =>
    obtain ⟨kept, follows, -⟩ := configure_spec (V := V) sound input
    exact ⟨kept, follows⟩
  | invalidateConfiguration =>
    obtain ⟨kept, follows, -⟩ := invalidateConfiguration_spec sound
    exact ⟨kept, follows⟩
  | clearSession chat => exact clearSession_spec sound chat
  | checkSession chat => exact serving rfl
  | redact chat value => exact serving rfl
  | restore chat value => exact serving rfl

def run (tools : PolicyTools) (redactors : Redactors V R) (maxSessions : ℕ) :
    AiPrivacyService R → List (PrivacyCall V) → AiPrivacyService R
  | service, [] => service
  | service, call :: calls =>
    run tools redactors maxSessions (step tools redactors maxSessions service call).2 calls

theorem run_append (first second : List (PrivacyCall V)) :
    run tools redactors maxSessions service (first ++ second) =
      run tools redactors maxSessions (run tools redactors maxSessions service first) second := by
  induction first generalizing service with
  | nil => rfl
  | cons call first ih => exact ih

theorem run_follows (calls : List (PrivacyCall V)) (sound : service.Sound tools) :
    (run tools redactors maxSessions service calls).Sound tools ∧
      service.Follows (run tools redactors maxSessions service calls) := by
  induction calls generalizing service with
  | nil => exact ⟨sound, .refl service⟩
  | cons call calls ih =>
    obtain ⟨kept, follows⟩ := step_follows sound redactors maxSessions call
    obtain ⟨still, rest⟩ := ih kept
    exact ⟨still, follows.trans rest⟩

/-- The call reached the session of the chat, whether or not its value was accepted. -/
def Uses (tools : PolicyTools) (redactors : Redactors V R) (maxSessions : ℕ) (service : AiPrivacyService R)
    (chat : JsString) (call : PrivacyCall V) : Prop :=
  Serves chat call ∧
    ∀ error, (step tools redactors maxSessions service call).1 = .error error → error ∈ VALUE_ERRORS

def Succeeds (tools : PolicyTools) (redactors : Redactors V R) (maxSessions : ℕ) (service : AiPrivacyService R)
    (call : PrivacyCall V) : Prop :=
  ∃ reply, (step tools redactors maxSessions service call).1 = .ok reply

variable {redactors : Redactors V R} {maxSessions : ℕ}

section

variable {chat : JsString} {call : PrivacyCall V}

theorem Succeeds.uses
    (succeeds : Succeeds tools redactors maxSessions service call) (serves : Serves chat call) :
    Uses tools redactors maxSessions service chat call := by
  obtain ⟨reply, done⟩ := succeeds
  refine ⟨serves, fun error failed => ?_⟩
  rw [done] at failed
  cases failed

theorem Uses.reaches
    (uses : Uses tools redactors maxSessions service chat call) (sound : service.Sound tools) :
    ∃ got, session redactors maxSessions service call = .ok got ∧
      service.Reaches chat got (step tools redactors maxSessions service call).2 := by
  rcases step_answered sound redactors maxSessions uses.1 with ⟨error, mem, refused⟩ | ⟨got, same, reaches, -⟩
  · exact (not_value_error mem (uses.2 error (congrArg Prod.fst refused))).elim
  · exact ⟨got, same, reaches⟩

theorem not_succeeds_of_closed (sound : service.Sound tools) (closed : service.closedSessions.has chat)
    (serves : Serves chat call) : ¬ Succeeds tools redactors maxSessions service call := by
  intro succeeds
  obtain ⟨got, -, reaches⟩ := (succeeds.uses serves).reaches sound
  rw [reaches.open_] at closed
  cases closed

/-- A chat that was used is pinned, or it was retired since. -/
theorem pinned_or_closed (sound : service.Sound tools)
    (uses : Uses tools redactors maxSessions service chat call) (calls : List (PrivacyCall V)) :
    let after := run tools redactors maxSessions service (call :: calls)
    (∃ got, session redactors maxSessions service call = .ok got ∧ got.isSome = service.config.enabled ∧
      after.pin chat = some got ∧ after.fingerprint = service.fingerprint) ∨
      after.closedSessions.has chat := by
  intro after
  obtain ⟨got, same, reaches⟩ := uses.reaches sound
  obtain ⟨-, follows⟩ := run_follows redactors maxSessions calls (reaches.sound sound)
  rcases follows.pinned chat got reaches.pinned with ⟨kept, printed⟩ | closed
  · exact .inl ⟨got, same, reaches.served, kept, printed.trans reaches.fingerprint⟩
  · exact .inr closed

theorem closed_of_change (sound : service.Sound tools) (changes : ChangesPolicy tools service call)
    (reached : (service.pin chat).isSome ∨ service.closedSessions.has chat) :
    (step tools redactors maxSessions service call).2.closedSessions.has chat := by
  have retires : (step tools redactors maxSessions service call).2.closedSessions.has chat =
      ((service.pin chat).isSome || service.closedSessions.has chat) := by
    cases call with
    | configure input =>
      obtain ⟨-, -, closed⟩ := configure_spec (V := V) sound input
      exact closed changes chat
    | invalidateConfiguration =>
      obtain ⟨-, -, closed⟩ := invalidateConfiguration_spec sound
      exact closed chat
    | clearSession other => exact changes.elim
    | checkSession other => exact changes.elim
    | redact other value => exact changes.elim
    | restore other value => exact changes.elim
  rw [retires, Bool.or_eq_true]
  exact reached

end

/-- In every run of a service: two successful calls that redact or restore for a chat find the
same policy in force and the same session, a redactor exactly when the policy is enabled; and
once the chat was cleared, or the policy changed after the chat's first use, no call succeeds
for the chat, whatever is configured later. -/
theorem chat_never_changes_policy (tools : PolicyTools) (redactors : Redactors V R)
    (options : ServiceOptions) (chat : JsString) (earlier : List (PrivacyCall V)) (call : PrivacyCall V)
    (between : List (PrivacyCall V)) (later : PrivacyCall V) :
    let service := run tools redactors options.maxSessions (create tools options) earlier
    let after := run tools redactors options.maxSessions service (call :: between)
    (Serves chat call → Succeeds tools redactors options.maxSessions service call →
      Serves chat later → Succeeds tools redactors options.maxSessions after later →
      after.fingerprint = service.fingerprint ∧
        ∃ got, session redactors options.maxSessions service call = .ok got ∧
          session redactors options.maxSessions after later = .ok got ∧
          got.isSome = service.config.enabled) ∧
      (call = .clearSession chat → Serves chat later →
        ¬ Succeeds tools redactors options.maxSessions after later) ∧
      ∀ before first since, earlier = before ++ first :: since →
        Uses tools redactors options.maxSessions
          (run tools redactors options.maxSessions (create tools options) before) chat first →
        ChangesPolicy tools service call → Serves chat later →
          ¬ Succeeds tools redactors options.maxSessions after later := by
  intro service after
  obtain ⟨sound, -⟩ := run_follows redactors options.maxSessions earlier (sound_create (R := R) tools options)
  obtain ⟨kept, -⟩ := step_follows sound redactors options.maxSessions call
  obtain ⟨soundAfter, follows⟩ := run_follows redactors options.maxSessions between kept
  refine ⟨fun serves succeeds servesLater again => ?_, fun clears serves => ?_,
    fun before first since split uses changes serves => ?_⟩
  · obtain ⟨other, sameLater, reachesLater⟩ := (again.uses servesLater).reaches soundAfter
    rcases pinned_or_closed sound (succeeds.uses serves) between with ⟨got, same, enabled, held, printed⟩ | closed
    · have one : other = got := by
        rcases reachesLater.before with absent | own
        · exact (some_ne_none _ (held.symm.trans absent)).elim
        · exact (Option.some.inj (held.symm.trans own)).symm
      exact ⟨printed, got, same, one ▸ sameLater, enabled⟩
    · exact (not_succeeds_of_closed soundAfter closed servesLater again).elim
  · subst clears
    intro succeeds
    obtain ⟨got, -, reaches⟩ := (succeeds.uses serves).reaches soundAfter
    have closed : (service.clearSession chat).2.closedSessions.has chat = true := by
      unfold clearSession
      rw [reaches.valid, Bool.not_true, if_neg (by decide)]
      rw [closed_retire, decide_eq_true rfl, Bool.true_or]
    exact not_succeeds_of_closed soundAfter (follows.retired chat closed) serves succeeds
  · have reached : (service.pin chat).isSome = true ∨ service.closedSessions.has chat = true := by
      obtain ⟨soundBefore, -⟩ := run_follows redactors options.maxSessions before (sound_create (R := R) tools options)
      have whole : service = run tools redactors options.maxSessions
          (run tools redactors options.maxSessions (create tools options) before) (first :: since) := by
        rw [← run_append, ← split]
      rcases pinned_or_closed soundBefore uses since with ⟨got, -, -, held, -⟩ | closed
      · rw [whole, held]
        exact .inl rfl
      · rw [whole]
        exact .inr closed
    exact not_succeeds_of_closed soundAfter (follows.retired chat (closed_of_change sound changes reached)) serves
end Steps

end AiPrivacyService

end Netcatty.AiPrivacy
