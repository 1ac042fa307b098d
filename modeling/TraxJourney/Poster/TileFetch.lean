/-
  File:      Poster/TileFetch.lean
  Subject:   Fetching one raster tile: `MapboxTileClient.fetch_tile` of `src/poster/tile_stitcher.py` with
             `_request_timeout`, `_wait`, `_rate_limit_wait` and `_header_seconds`.

  * **`fetchTile_bounded`** -- three failures and 65 s of rate-limit sleep at most, so 68 requests; no
    request and no sleep that the deadline leaves no time for; a body is that of a 200 answer.

  Seconds are exact. A request starts, and a sleep begins, at the reading of the clock that its check
  made. The text of a header is Latin-1, whose only decimal digits are the ten of ASCII.
-/
import TraxJourney.Lib.FloatText

namespace TraxJourney.Poster

open Lib

/-! ## 1. The client and what it meets -/

/-- `APIError`, by its message. -/
structure APIError where
  message : String

structure Response where
  statusCode : ℤ
  /-- `headers.get(name)`, of no headers as of a name that is missing. -/
  headers : String → Option String
  content : List UInt8
  text : String

/-- What `session.get` comes back with: a response, or the text of a `RequestException`. -/
inductive Answer where
  | response (resp : Response)
  | failure (exc : String)

/-- A failure of the network, or of the server. -/
def Answer.failed : Answer → Bool
  | .response resp => decide (500 ≤ resp.statusCode)
  | .failure _ => true

def Answer.limited : Answer → Bool
  | .response resp => decide (resp.statusCode = 429)
  | .failure _ => false

theorem Answer.failed_of_limited {answer : Answer} (h : answer.limited = true) : answer.failed = false := by
  cases answer with
  | response resp =>
    have hcode : resp.statusCode = 429 := of_decide_eq_true h
    exact decide_eq_false (by omega)
  | failure => cases h

theorem Answer.limited_of_failed {answer : Answer} (h : answer.failed = true) : answer.limited = false := by
  by_contra hlimited
  rw [Answer.failed_of_limited (Bool.not_eq_false _ ▸ hlimited)] at h
  cases h

structure MapboxTileClient where
  token : String
  styleUsername : String
  styleId : String
  tileSize : ℤ
  pixelRatio : ℤ
  timeout : ℚ
  deadline : Option ℚ

def maxRetries : ℕ := 3
def maxRateLimitWaitS : ℚ := 65
def minRequestS : ℚ := 1 / 2
def minRateLimitSleepS : ℚ := 1
def maxRateLimitSleepS : ℚ := 30
def rateLimitResetMarginS : ℚ := 1

/-- What one turn of the loop meets; a reading that the turn does not make is left unused. -/
structure Turn where
  /-- `time.monotonic()` in `_request_timeout`. -/
  start : ℚ
  answer : Answer
  /-- `time.time()` in `_rate_limit_wait`. -/
  wall : ℚ
  /-- `time.monotonic()` in `_wait`. -/
  beforeWait : ℚ

structure Request where
  url : String
  accessToken : String
  timeout : ℚ

structure Sleep where
  begins : ℚ
  seconds : ℚ

/-- A request that was sent, its answer, and the sleep after it. -/
structure Call where
  start : ℚ
  request : Request
  answer : Answer
  sleep : Option Sleep

structure Fetched where
  log : List Call
  outcome : Except APIError (List UInt8)

/-! ## 2. Headers -/

/-- A blank that `float` strips, of Latin-1. -/
def isFloatBlank (c : Char) : Bool := (9 ≤ c.toNat && c.toNat ≤ 13) || [32, 133, 160].contains c.toNat

/-- The text without its underscores, each of which has to stand between two digits. -/
def dropUnderscores : Char → List Char → Option (List Char)
  | _, [] => some []
  | last, '_' :: next :: rest =>
    if last.isDigit = true ∧ next.isDigit = true then
      (dropUnderscores next rest).map fun cs => next :: cs
    else none
  | _, ['_'] => none
  | _, c :: rest => (dropUnderscores c rest).map fun cs => c :: cs

/-- The exponent of a number, from the digits of its mantissa to the end. -/
def exponentOf : List Char → Option ℤ
  | [] => some 0
  | mark :: rest =>
    if mark = 'e' ∨ mark = 'E' then
      match rest with
      | '-' :: digits => (readDigitsOnly digits).map fun (n : ℕ) => -(n : ℤ)
      | '+' :: digits => (readDigitsOnly digits).map fun (n : ℕ) => (n : ℤ)
      | digits => (readDigitsOnly digits).map fun (n : ℕ) => (n : ℤ)
    else none

/-- A number without its sign: digits before a point, after one, or both. -/
def unsignedFloat (cs : List Char) : Option Double :=
  let whole := cs.takeWhile Char.isDigit
  let rest := cs.dropWhile Char.isDigit
  let places := match rest with
    | '.' :: tail => tail.takeWhile Char.isDigit
    | _ => []
  let tail := match rest with
    | '.' :: tail => tail.dropWhile Char.isDigit
    | _ => rest
  let word := cs.map Char.toLower
  if word = "inf".toList ∨ word = "infinity".toList then some (.infinite false)
  else if word = "nan".toList then some .nan
  else if whole = [] ∧ places = [] then none
  else (exponentOf tail).map fun exponent => .ofRat (decimal (whole ++ places) (exponent - places.length))

/-- `float(text)`. -/
def floatOf (text : String) : Option Double :=
  let stripped := ((text.toList.dropWhile isFloatBlank).reverse.dropWhile isFloatBlank).reverse
  (dropUnderscores ' ' stripped).bind fun cs =>
    match cs with
    | '-' :: cs => (unsignedFloat cs).map .neg
    | '+' :: cs => unsignedFloat cs
    | cs => unsignedFloat cs

example : (floatOf " 1_2.5e1 ").bind Double.exact = some 125 := by decide +kernel
example : (floatOf "Wed, 21 Oct 2026 07:28:00 GMT").bind Double.exact = none := by decide +kernel

/-- `_header_seconds`: the header as a finite number, nothing where it is missing or malformed. -/
def headerSeconds (headers : String → Option String) (name : String) : Option ℚ :=
  ((headers name).bind floatOf).bind Double.exact

/-- `_rate_limit_wait`, after the `attempt`-th 429. -/
def rateLimitWait (resp : Response) (wall : ℚ) (attempt : ℕ) : ℚ :=
  let wait : Option ℚ := ((headerSeconds resp.headers "X-Rate-Limit-Reset").map (· - wall)).bind
    fun untilReset => if 0 < untilReset then some (untilReset + rateLimitResetMarginS) else none
  let wait : Option ℚ := wait.or ((headerSeconds resp.headers "Retry-After").bind
    fun retryAfter => if 0 ≤ retryAfter then some retryAfter else none)
  min (max (wait.getD (2 ^ attempt)) minRateLimitSleepS) maxRateLimitSleepS

theorem rateLimitWait_mem (resp : Response) (wall : ℚ) (attempt : ℕ) :
    minRateLimitSleepS ≤ rateLimitWait resp wall attempt ∧
      rateLimitWait resp wall attempt ≤ maxRateLimitSleepS :=
  ⟨le_min (le_max_right _ _) (by decide +kernel), min_le_right _ _⟩

/-! ## 3. One fetch -/

namespace MapboxTileClient

variable (client : MapboxTileClient)

/-- `f"{seconds:.0f}"`. -/
def wholeSeconds (seconds : ℚ) : String := toString (roundHalfEven seconds)

/-- `_request_timeout`: the next request's timeout, cut to what the deadline leaves at `now`. -/
def requestTimeout (now : ℚ) : Except APIError ℚ :=
  match client.deadline with
  | none => .ok client.timeout
  | some deadline =>
    if deadline - now < minRequestS then
      .error ⟨"Mapbox tile fetch ran out of time before its deadline"⟩
    else .ok (min client.timeout (deadline - now))

/-- `_wait`: the sleep, unless no request could follow it before the deadline. -/
def wait (now seconds : ℚ) (reason : String) : Except APIError Sleep :=
  if ∃ deadline ∈ client.deadline, deadline < now + seconds + minRequestS then
    .error ⟨s!"Mapbox tile fetch failed ({reason}); no time left before the deadline to wait " ++
      s!"{wholeSeconds seconds} s and retry"⟩
  else .ok ⟨now, seconds⟩

/-- The variables of the loop. -/
structure State where
  lastError : Option String := none
  attempt : ℕ := 0
  rateLimited : ℕ := 0
  rateLimitWaited : ℚ := 0

/-- What a turn makes of its answer: the end of the fetch, or a sleep, or none, and the next turn. -/
inductive Handled where
  | ends (outcome : Except APIError (List UInt8))
  | goesOn (sleep : Option Sleep) (s : State)

/-- A failure of the network or of the server: one more attempt, after a sleep unless it was the last. -/
def handleFailure (s : State) (turn : Turn) (lastError : String) : Handled :=
  let attempt := s.attempt + 1
  let s : State := { s with lastError := some lastError, attempt := attempt }
  if attempt < maxRetries then
    match client.wait turn.beforeWait (2 ^ (attempt - 1)) lastError with
    | .error e => .ends (.error e)
    | .ok sleep => .goesOn (some sleep) s
  else .goesOn none s

/-- A 429, waited out on a budget of its own. -/
def handleRateLimit (s : State) (turn : Turn) (resp : Response) : Handled :=
  let wait := rateLimitWait resp turn.wall s.rateLimited
  if maxRateLimitWaitS < s.rateLimitWaited + wait then
    .ends (.error ⟨s!"Mapbox tile fetch failed (429): still rate-limited after waiting " ++
      s!"{wholeSeconds s.rateLimitWaited} s"⟩)
  else
    match client.wait turn.beforeWait wait "429" with
    | .error e => .ends (.error e)
    | .ok sleep => .goesOn (some sleep)
        { s with rateLimited := s.rateLimited + 1, rateLimitWaited := s.rateLimitWaited + wait }

/-- One turn of the loop of `fetch_tile`, from its answer on. -/
def handle (s : State) (turn : Turn) : Handled :=
  match turn.answer with
  | .failure exc => client.handleFailure s turn exc
  | .response resp =>
    if resp.statusCode = 200 then .ends (.ok resp.content)
    else if resp.statusCode = 429 then client.handleRateLimit s turn resp
    else if 500 ≤ resp.statusCode then
      client.handleFailure s turn s!"Server error {resp.statusCode}"
    else .ends (.error ⟨s!"Mapbox tile fetch failed ({resp.statusCode}): " ++
      String.ofList (resp.text.toList.take 200)⟩)

/-- The sleep leaves time for a request before the deadline. -/
def Sleep.FitsBefore (sleep : Sleep) (deadline : Option ℚ) : Prop :=
  ∀ d ∈ deadline, sleep.begins + sleep.seconds + minRequestS ≤ d

theorem wait_ok {now seconds : ℚ} {reason : String} {sleep : Sleep}
    (h : client.wait now seconds reason = .ok sleep) :
    sleep = ⟨now, seconds⟩ ∧ Sleep.FitsBefore sleep client.deadline := by
  unfold wait at h
  split at h
  case isTrue => cases h
  case isFalse hfits =>
    cases h
    refine ⟨rfl, fun d hd => ?_⟩
    by_contra hlate
    exact hfits ⟨d, hd, not_le.mp hlate⟩

theorem requestTimeout_ok {now timeout : ℚ} (h : client.requestTimeout now = .ok timeout) :
    ∀ d ∈ client.deadline, now + minRequestS ≤ d ∧ now + timeout ≤ d := by
  intro d hd
  unfold requestTimeout at h
  rw [Option.mem_def.mp hd] at h
  change (if d - now < minRequestS then _ else _) = _ at h
  split at h
  case isTrue => cases h
  case isFalse hleft =>
    cases h
    have hcut : min client.timeout (d - now) ≤ d - now := min_le_right _ _
    constructor <;> linarith [not_lt.mp hleft]

/-- What a turn leaves to the next one: one attempt more, or one sleep more on the budget for 429s. -/
inductive GoesOn (s : State) (turn : Turn) : Option Sleep → State → Prop
  | failed {sleep : Option Sleep} {s' : State} (hanswer : turn.answer.failed = true)
      (hsleep : ∀ w ∈ sleep, w.begins = turn.beforeWait ∧ Sleep.FitsBefore w client.deadline)
      (hattempt : s'.attempt = s.attempt + 1) (hwaited : s'.rateLimitWaited = s.rateLimitWaited) :
      GoesOn s turn sleep s'
  | limited {sleep : Sleep} {s' : State} (hanswer : turn.answer.limited = true)
      (hbegins : sleep.begins = turn.beforeWait) (hsleep : Sleep.FitsBefore sleep client.deadline)
      (hseconds : minRateLimitSleepS ≤ sleep.seconds)
      (hattempt : s'.attempt = s.attempt)
      (hwaited : s'.rateLimitWaited = s.rateLimitWaited + sleep.seconds)
      (hbudget : s'.rateLimitWaited ≤ maxRateLimitWaitS) : GoesOn s turn (some sleep) s'

variable {sleep : Option Sleep} {s s' : State} {turn : Turn}

theorem handleFailure_goesOn {lastError : String} (hanswer : turn.answer.failed = true)
    (h : client.handleFailure s turn lastError = .goesOn sleep s') :
    client.GoesOn s turn sleep s' := by
  simp only [handleFailure] at h
  split at h
  case isTrue =>
    split at h
    case h_1 => cases h
    case h_2 w hw =>
      cases h
      obtain ⟨rfl, hfits⟩ := client.wait_ok hw
      refine .failed hanswer (fun v hv => ?_) rfl rfl
      cases hv
      exact ⟨rfl, hfits⟩
  case isFalse =>
    cases h
    exact .failed hanswer (fun v hv => by cases hv) rfl rfl

theorem handleRateLimit_goesOn {resp : Response} (hanswer : turn.answer.limited = true)
    (h : client.handleRateLimit s turn resp = .goesOn sleep s') : client.GoesOn s turn sleep s' := by
  simp only [handleRateLimit] at h
  split at h
  case isTrue => cases h
  case isFalse hbudget =>
    split at h
    case h_1 => cases h
    case h_2 w hw =>
      cases h
      obtain ⟨rfl, hfits⟩ := client.wait_ok hw
      exact .limited hanswer rfl hfits (rateLimitWait_mem resp turn.wall s.rateLimited).1 rfl rfl
        (not_lt.mp hbudget)

theorem handle_goesOn (h : client.handle s turn = .goesOn sleep s') : client.GoesOn s turn sleep s' := by
  unfold handle at h
  split at h
  case h_1 exc hexc => exact client.handleFailure_goesOn (by rw [hexc]; rfl) h
  case h_2 resp hresp =>
    split at h
    case isTrue => cases h
    case isFalse =>
      split at h
      case isTrue hlimited =>
        exact client.handleRateLimit_goesOn (by rw [hresp]; exact decide_eq_true hlimited) h
      case isFalse =>
        split at h
        case isTrue hserver =>
          exact client.handleFailure_goesOn (by rw [hresp]; exact decide_eq_true hserver) h
        case isFalse => cases h

variable {body : List UInt8}

theorem handleFailure_body {lastError : String} :
    client.handleFailure s turn lastError ≠ .ends (.ok body) := by
  simp only [handleFailure]
  intro h
  split at h
  case isTrue => split at h <;> cases h
  case isFalse => cases h

theorem handleRateLimit_body {resp : Response} :
    client.handleRateLimit s turn resp ≠ .ends (.ok body) := by
  simp only [handleRateLimit]
  intro h
  split at h
  case isTrue => cases h
  case isFalse => split at h <;> cases h

theorem handle_body (h : client.handle s turn = .ends (.ok body)) :
    ∃ resp, turn.answer = .response resp ∧ resp.statusCode = 200 ∧ resp.content = body := by
  unfold handle at h
  split at h
  case h_1 => exact absurd h client.handleFailure_body
  case h_2 resp hresp =>
    split at h
    case isTrue hok =>
      cases h
      exact ⟨resp, hresp, hok, rfl⟩
    case isFalse =>
      split at h
      case isTrue => exact absurd h client.handleRateLimit_body
      case isFalse =>
        split at h
        case isTrue => exact absurd h client.handleFailure_body
        case isFalse => cases h

/-! ## 4. The loop -/

/-- Turns that are left at most: the attempts, and a second of sleep for every 429. -/
def State.left (s : State) : ℕ := (maxRetries - s.attempt) + ⌊maxRateLimitWaitS - s.rateLimitWaited⌋.toNat

theorem State.left_lt (h : client.GoesOn s turn sleep s') (hattempt : s.attempt < maxRetries) :
    s'.left < s.left := by
  unfold State.left
  cases h with
  | failed _ _ hmore hsame =>
    rw [hmore, hsame]
    omega
  | limited _ _ _ hseconds hsame hmore hbudget =>
    rw [hsame]
    have hone : maxRateLimitWaitS - s'.rateLimitWaited + 1 ≤ maxRateLimitWaitS - s.rateLimitWaited := by
      change (1 : ℚ) ≤ _ at hseconds
      rw [hmore]
      linarith
    have hnonneg : 0 ≤ ⌊maxRateLimitWaitS - s'.rateLimitWaited⌋ :=
      Int.floor_nonneg.mpr (sub_nonneg.mpr hbudget)
    have hfloor : ⌊maxRateLimitWaitS - s'.rateLimitWaited⌋ + 1 ≤ ⌊maxRateLimitWaitS - s.rateLimitWaited⌋ := by
      rw [← Int.floor_add_one]
      exact Int.floor_le_floor hone
    omega

/-- The loop of `fetch_tile`, from its `n`-th turn on. -/
def fetchLoop (url : String) (turn : ℕ → Turn) (s : State) (n : ℕ) : Fetched :=
  if _ : s.attempt < maxRetries then
    match client.requestTimeout (turn n).start with
    | .error e => ⟨[], .error e⟩
    | .ok timeout =>
      match hstep : client.handle s (turn n) with
      | .ends outcome => ⟨[⟨(turn n).start, ⟨url, client.token, timeout⟩, (turn n).answer, none⟩], outcome⟩
      | .goesOn sleep s' =>
        let rest := fetchLoop url turn s' (n + 1)
        ⟨⟨(turn n).start, ⟨url, client.token, timeout⟩, (turn n).answer, sleep⟩ :: rest.log, rest.outcome⟩
  else
    let lastError := s.lastError.getD "None"
    ⟨[], .error ⟨s!"Mapbox tile fetch failed after {maxRetries} attempts: {lastError}"⟩⟩
termination_by s.left
decreasing_by exact State.left_lt client (client.handle_goesOn hstep) ‹_›

/-- `fetch_tile`, with what its turns meet. -/
def fetchTile (z x y : ℤ) (turn : ℕ → Turn) : Fetched :=
  let retina := if client.pixelRatio = 2 then "@2x" else ""
  client.fetchLoop (s!"https://api.mapbox.com/styles/v1/{client.styleUsername}/{client.styleId}" ++
    s!"/tiles/{client.tileSize}/{z}/{x}/{y}{retina}") turn {} 0

/-- The seconds slept after 429 answers. -/
def rateLimitSleep : List Call → ℚ
  | [] => 0
  | call :: log =>
    (if call.answer.limited then (call.sleep.map Sleep.seconds).getD 0 else 0) + rateLimitSleep log

/-- The deadline leaves time for the request, and for another one after the sleep. -/
def CallFits (call : Call) : Prop :=
  (∀ d ∈ client.deadline, call.start + minRequestS ≤ d ∧ call.start + call.request.timeout ≤ d) ∧
    ∀ sleep ∈ call.sleep, Sleep.FitsBefore sleep client.deadline

variable (url : String) (turn : ℕ → Turn)

theorem fetchLoop_fits (s : State) (n : ℕ) :
    ∀ call ∈ (client.fetchLoop url turn s n).log, client.CallFits call := by
  fun_induction fetchLoop client url turn s n with
  | case1 => exact fun call h => absurd h List.not_mem_nil
  | case2 s n _ timeout htimeout outcome =>
    intro call h
    rw [List.mem_singleton.mp h]
    exact ⟨client.requestTimeout_ok htimeout, fun sleep hsleep => by cases hsleep⟩
  | case3 s n _ timeout htimeout sleep s' hstep rest ih =>
    intro call h
    rcases List.mem_cons.mp h with rfl | h
    · refine ⟨client.requestTimeout_ok htimeout, ?_⟩
      cases client.handle_goesOn hstep with
      | failed _ hsleep => exact fun w hw => (hsleep w hw).2
      | limited _ _ hsleep =>
        intro w hw
        cases hw
        exact hsleep
    · exact ih call h
  | case4 => exact fun call h => absurd h List.not_mem_nil

theorem fetchLoop_failures (s : State) (n : ℕ) :
    ((client.fetchLoop url turn s n).log.filter (·.answer.failed)).length ≤ maxRetries - s.attempt := by
  fun_induction fetchLoop client url turn s n with
  | case1 => exact Nat.zero_le _
  | case2 s n hattempt timeout htimeout outcome =>
    refine le_trans (List.length_filter_le _ _) ?_
    change 1 ≤ _
    omega
  | case3 s n hattempt timeout htimeout sleep s' hstep rest ih =>
    cases client.handle_goesOn hstep with
    | failed hanswer _ hmore =>
      simp only [List.filter_cons, hanswer, if_true, List.length_cons]
      rw [hmore] at ih
      change (rest.log.filter _).length ≤ _ at ih
      omega
    | limited hanswer _ _ _ hsame =>
      simp only [List.filter_cons, Answer.failed_of_limited hanswer, Bool.false_eq_true, if_false]
      rw [hsame] at ih
      exact ih
  | case4 => exact Nat.zero_le _

theorem fetchLoop_sleep (s : State) (n : ℕ) (h : s.rateLimitWaited ≤ maxRateLimitWaitS) :
    s.rateLimitWaited + rateLimitSleep (client.fetchLoop url turn s n).log ≤ maxRateLimitWaitS := by
  fun_induction fetchLoop client url turn s n with
  | case1 => simpa [rateLimitSleep] using h
  | case2 => simpa [rateLimitSleep] using h
  | case3 s n hattempt timeout htimeout sleep s' hstep rest ih =>
    rw [rateLimitSleep]
    cases client.handle_goesOn hstep with
    | failed hanswer _ _ hsame =>
      rw [Answer.limited_of_failed hanswer, if_neg Bool.false_ne_true, zero_add]
      rw [hsame] at ih
      exact ih h
    | @limited w _ hanswer _ _ _ _ hmore hbudget =>
      rw [hanswer, if_pos rfl]
      change s.rateLimitWaited + (w.seconds + _) ≤ _
      rw [← add_assoc, ← hmore]
      exact ih hbudget
  | case4 => simpa [rateLimitSleep] using h

theorem fetchLoop_requests (s : State) (n : ℕ) : (client.fetchLoop url turn s n).log.length ≤ s.left := by
  fun_induction fetchLoop client url turn s n with
  | case1 => exact Nat.zero_le _
  | case2 s n hattempt =>
    change 1 ≤ _
    unfold State.left
    omega
  | case3 s n hattempt timeout htimeout sleep s' hstep rest ih =>
    have hless : s'.left < s.left := State.left_lt client (client.handle_goesOn hstep) hattempt
    change rest.log.length ≤ s'.left at ih
    change rest.log.length + 1 ≤ s.left
    omega
  | case4 => exact Nat.zero_le _

theorem fetchLoop_body (s : State) (n : ℕ) (h : (client.fetchLoop url turn s n).outcome = .ok body) :
    ∃ call resp, (client.fetchLoop url turn s n).log.getLast? = some call ∧
      call.answer = .response resp ∧ resp.statusCode = 200 ∧ resp.content = body := by
  fun_induction fetchLoop client url turn s n with
  | case1 => cases h
  | case2 s n _ timeout htimeout outcome hstep =>
    subst h
    obtain ⟨resp, hanswer, hok⟩ := client.handle_body hstep
    exact ⟨_, resp, rfl, hanswer, hok⟩
  | case3 s n _ timeout htimeout sleep s' hstep rest ih =>
    obtain ⟨call, resp, hlast, hok⟩ := ih h
    refine ⟨call, resp, ?_, hok⟩
    rw [List.getLast?_cons, hlast]
    rfl
  | case4 => cases h

/-- **Tile fetching is bounded.** -/
theorem fetchTile_bounded (z x y : ℤ) (turn : ℕ → Turn) :
    let fetched := client.fetchTile z x y turn
    fetched.log.length ≤ 68 ∧ (fetched.log.filter (·.answer.failed)).length ≤ maxRetries ∧
      rateLimitSleep fetched.log ≤ maxRateLimitWaitS ∧
      (∀ call ∈ fetched.log, ∀ d ∈ client.deadline,
        call.start + minRequestS ≤ d ∧ call.start + call.request.timeout ≤ d) ∧
      (∀ call ∈ fetched.log, ∀ sleep ∈ call.sleep, ∀ d ∈ client.deadline,
        sleep.begins + sleep.seconds + minRequestS ≤ d) ∧
      ∀ body, fetched.outcome = .ok body → ∃ call resp, fetched.log.getLast? = some call ∧
        call.answer = .response resp ∧ resp.statusCode = 200 ∧ resp.content = body := by
  intro fetched
  have hleft : ({} : State).left = 68 := by decide +kernel
  refine ⟨hleft ▸ client.fetchLoop_requests _ _ {} 0, client.fetchLoop_failures _ _ {} 0, ?_,
    fun call hcall => (client.fetchLoop_fits _ _ {} 0 call hcall).1,
    fun call hcall => (client.fetchLoop_fits _ _ {} 0 call hcall).2,
    fun body hbody => client.fetchLoop_body _ _ {} 0 hbody⟩
  have hsleep : 0 + rateLimitSleep fetched.log ≤ maxRateLimitWaitS :=
    client.fetchLoop_sleep _ _ {} 0 (by decide +kernel)
  rwa [zero_add] at hsleep

end MapboxTileClient

end TraxJourney.Poster
