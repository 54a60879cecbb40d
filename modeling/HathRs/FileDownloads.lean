import HathRs.TextParsing

/-!
# Downloads with a size limit

One attempt of `FileDownloader`: it compares the declared length with the limits, then creates the
output file and copies the body. The declared length is an unsigned word of 64 bits, but the
comparisons are made with its low half as a signed number, so a length of 4 GiB and a few bytes
passes for those few bytes. A retry writes to the same path and begins by truncating it.
-/

namespace HathRs.FileDownloads
open TextParsing

inductive DownloadMode where
  | memory
  | file
  | discard
  deriving DecidableEq

structure FileDownloader where
  source : String
  mode : DownloadMode
  maxContentLength : Option UInt64

inductive HathError where
  | network (message : String)
  | io
  deriving DecidableEq

inductive DownloadAttemptError where
  | retryable (error : HathError)
  | notFound (error : HathError)
  deriving DecidableEq

/-- A chunk of the body. A write that fails may have put some of its bytes into the file. -/
structure Chunk where
  data : Bytes
  failedWrite : Option ℕ := none

/-- A response with its status, its declared length and its body, which ends or breaks off with an
error. `createFails` and `flushFails` are what the disk answers. -/
structure Response where
  status : ℕ
  statusText : String
  contentLength : Option UInt64
  chunks : List Chunk
  bodyError : Option String
  createFails : Bool
  flushFails : Bool

def Response.data (response : Response) : Bytes := response.chunks.flatMap Chunk.data

/-- The HTTP client ends a body without an error only behind its declared length. -/
def Response.LengthDelimited (response : Response) : Prop :=
  ∀ declared, response.contentLength = some declared → response.bodyError = none →
    response.data.length = declared.toNat

inductive Reply where
  | sendFailed (message : String)
  | response (response : Response)

/-- What an attempt does to the rest of the program, in this order. -/
inductive Effect where
  | storeLength (contentLength : Int32)
  | create
  | write (data : Bytes)
  deriving DecidableEq

/-- The content of the output file after an effect. -/
def Effect.apply (output : Option Bytes) : Effect → Option Bytes
  | .storeLength _ => output
  | .create => some []
  | .write data => output.map (· ++ data)

def outputAfter (output : Option Bytes) (effects : List Effect) : Option Bytes :=
  effects.foldl Effect.apply output

/-- The length that is stored last. -/
def storedLength (effects : List Effect) : Option Int32 :=
  effects.foldl (fun stored effect =>
    match effect with
    | .storeLength n => some n
    | _ => stored) none

namespace FileDownloader

/-- `content_length as i32` -/
def narrow (contentLength : UInt64) : Int32 := contentLength.toUInt32.toInt32

/-- `as u64` of a length that is not negative. -/
def widen (contentLength : Int32) : ℕ := contentLength.toInt.toNat

def displayLength (contentLength : Int32) : String := toString contentLength.toInt

/-- The checks in front of the first effect. -/
def checkLength (d : FileDownloader) (declared : Option UInt64) : Except HathError Int32 :=
  match declared with
  | none => .error (.network "missing Content-Length header")
  | some declared =>
    let contentLength := narrow declared
    if contentLength.toInt < 0 then .error (.network "invalid Content-Length")
    else
      match d.maxContentLength.filter fun max => max.toNat < widen contentLength with
      | some max =>
        .error (.network ("content too large: " ++ displayLength contentLength ++ " exceeds " ++
          toString max.toNat))
      | none =>
        if 10485760 < contentLength.toInt ∧ d.mode = .memory then
          .error (.network "content too large for memory buffer")
        else .ok contentLength

/-- The loop over the chunks, with the effects so far and the bytes it has seen. -/
def receiveChunks (d : FileDownloader) (bodyError : Option String) (effects : List Effect)
    (seen : Bytes) : List Chunk → List Effect × Except HathError Bytes
  | [] =>
    match bodyError with
    | none => (effects, .ok seen)
    | some message => (effects, .error (.network message))
  | chunk :: chunks =>
    let seen := seen ++ chunk.data
    if d.mode = .file then
      match chunk.failedWrite with
      | none => receiveChunks d bodyError (effects ++ [.write chunk.data]) seen chunks
      | some kept => (effects ++ [.write (chunk.data.take kept)], .error .io)
    else receiveChunks d bodyError effects seen chunks

/-- The length is stored and the file is created or truncated. -/
def started (d : FileDownloader) (contentLength : Int32) : List Effect :=
  .storeLength contentLength :: if d.mode = .file then [.create] else []

/-- The result behind the last chunk. -/
def checkBody (d : FileDownloader) (response : Response) (contentLength : Int32) (seen : Bytes) :
    Except HathError (Option Bytes) :=
  if seen.length ≠ widen contentLength then
    .error (.network ("incomplete: got " ++ toString seen.length ++ " of " ++
      displayLength contentLength))
  else if d.mode = .file ∧ response.flushFails then .error .io
  else .ok (if d.mode = .memory then some seen else none)

/-- The part behind the checks. -/
def receiveBody (d : FileDownloader) (response : Response) (contentLength : Int32) :
    List Effect × Except HathError (Option Bytes) :=
  if d.mode = .file ∧ response.createFails then ([.storeLength contentLength], .error .io)
  else
    match d.receiveChunks response.bodyError (d.started contentLength) [] response.chunks with
    | (effects, .error error) => (effects, .error error)
    | (effects, .ok seen) => (effects, d.checkBody response contentLength seen)

def attemptDownload (d : FileDownloader) :
    Reply → List Effect × Except DownloadAttemptError (Option Bytes)
  | .sendFailed message => ([], .error (.retryable (.network message)))
  | .response response =>
    if response.status = 404 then
      ([], .error (.notFound (.network ("server returned 404 for " ++ d.source))))
    else if response.status < 200 ∨ 300 ≤ response.status then
      ([], .error (.retryable (.network ("server returned " ++ response.statusText ++ " for " ++
        d.source))))
    else
      match d.checkLength response.contentLength with
      | .error error => ([], .error (.retryable error))
      | .ok contentLength =>
        match d.receiveBody response contentLength with
        | (effects, .error error) => (effects, .error (.retryable error))
        | (effects, .ok buffer) => (effects, .ok buffer)

/-- `download` with so many retries left: the effects of all attempts and the last result. -/
def download (d : FileDownloader) : ℕ → (ℕ → Reply) → List Effect × Except HathError (Option Bytes)
  | 0, _ => ([], .error (.network ("exhausted retries for " ++ d.source)))
  | retries + 1, replies =>
    match d.attemptDownload (replies 0) with
    | (effects, .ok buffer) => (effects, .ok buffer)
    | (effects, .error (.notFound error)) => (effects, .error error)
    | (effects, .error (.retryable _)) =>
      let (more, result) := download d retries (fun n => replies (n + 1))
      (effects ++ more, result)

/-! ## The body -/

theorem receiveChunks_ok {d : FileDownloader} {bodyError : Option String} {effects after : List Effect}
    {seen all : Bytes} {chunks : List Chunk}
    (h : d.receiveChunks bodyError effects seen chunks = (after, .ok all)) :
    bodyError = none ∧ all = seen ++ chunks.flatMap Chunk.data ∧
      after = effects ++ if d.mode = .file then chunks.map (fun chunk => .write chunk.data) else [] := by
  induction chunks generalizing effects seen with
  | nil =>
    cases bodyError with
    | none =>
      cases h
      simp
    | some message => cases h
  | cons chunk chunks ih =>
    rw [receiveChunks] at h
    by_cases hmode : d.mode = .file
    · rw [if_pos hmode] at h
      cases hwrite : chunk.failedWrite with
      | some kept =>
        simp only [hwrite] at h
        cases h
      | none =>
        simp only [hwrite] at h
        obtain ⟨hend, hall, hafter⟩ := ih h
        refine ⟨hend, ?_, ?_⟩
        · rw [hall, List.flatMap_cons, List.append_assoc]
        · rw [hafter, if_pos hmode, if_pos hmode, List.map_cons, List.append_assoc, List.singleton_append]
    · rw [if_neg hmode] at h
      obtain ⟨hend, hall, hafter⟩ := ih h
      refine ⟨hend, ?_, ?_⟩
      · rw [hall, List.flatMap_cons, List.append_assoc]
      · rw [hafter, if_neg hmode, if_neg hmode]

/-- The loop only adds effects. -/
theorem receiveChunks_extends (d : FileDownloader) (bodyError : Option String) (effects : List Effect)
    (seen : Bytes) (chunks : List Chunk) :
    effects <+: (d.receiveChunks bodyError effects seen chunks).1 := by
  induction chunks generalizing effects seen with
  | nil => cases bodyError <;> exact List.prefix_refl effects
  | cons chunk chunks ih =>
    rw [receiveChunks]
    by_cases hmode : d.mode = .file
    · rw [if_pos hmode]
      cases hwrite : chunk.failedWrite with
      | none => exact (List.prefix_append effects _).trans (ih _ _)
      | some kept => exact List.prefix_append effects _
    · rw [if_neg hmode]
      exact ih _ _

theorem foldl_apply_write (chunks : List Chunk) (output : Bytes) :
    (chunks.map fun chunk => Effect.write chunk.data).foldl Effect.apply (some output) =
      some (output ++ chunks.flatMap Chunk.data) := by
  induction chunks generalizing output with
  | nil => simp
  | cons chunk chunks ih =>
    rw [List.map_cons, List.foldl_cons, Effect.apply, Option.map_some, ih, List.flatMap_cons,
      List.append_assoc]

theorem storedLength_writes (stored : Option Int32) (chunks : List Chunk) :
    (chunks.map fun chunk => Effect.write chunk.data).foldl (fun stored effect =>
      match effect with
      | .storeLength n => some n
      | _ => stored) stored = stored := by
  induction chunks with
  | nil => rfl
  | cons chunk chunks ih => exact ih

theorem checkBody_ok {d : FileDownloader} {response : Response} {contentLength : Int32} {seen : Bytes}
    {buffer : Option Bytes} (h : d.checkBody response contentLength seen = .ok buffer) :
    seen.length = widen contentLength ∧ buffer = if d.mode = .memory then some seen else none := by
  rw [checkBody] at h
  split_ifs at h with hlen hflush hmemory
  · cases h
    exact ⟨not_not.mp hlen, by rw [if_pos hmemory]⟩
  · cases h
    exact ⟨not_not.mp hlen, by rw [if_neg hmemory]⟩

/-- The effects of a body that was received completely. -/
theorem receiveBody_ok {d : FileDownloader} {response : Response} {contentLength : Int32}
    {effects : List Effect} {buffer : Option Bytes}
    (h : d.receiveBody response contentLength = (effects, .ok buffer)) :
    response.bodyError = none ∧ response.data.length = widen contentLength ∧
      buffer = (if d.mode = .memory then some response.data else none) ∧
      effects = d.started contentLength ++
        if d.mode = .file then response.chunks.map (fun chunk => .write chunk.data) else [] := by
  rw [receiveBody] at h
  by_cases hcreate : d.mode = .file ∧ response.createFails
  · rw [if_pos hcreate] at h
    cases h
  rw [if_neg hcreate] at h
  generalize hrun : d.receiveChunks response.bodyError (d.started contentLength) [] response.chunks =
    received at h
  obtain ⟨after, result⟩ := received
  cases result with
  | error error => cases h
  | ok seen =>
    obtain ⟨hend, hseen, hafter⟩ := receiveChunks_ok hrun
    obtain ⟨heffects, hresult⟩ := Prod.mk.inj h
    obtain ⟨hlen, hbuffer⟩ := checkBody_ok hresult
    rw [List.nil_append] at hseen
    rw [hseen] at hlen hbuffer
    exact ⟨hend, hlen, hbuffer, heffects.symm.trans hafter⟩

/-- Behind the checks the length is stored before anything else. -/
theorem receiveBody_ne_nil (d : FileDownloader) (response : Response) (contentLength : Int32) :
    (d.receiveBody response contentLength).1 ≠ [] := by
  rw [receiveBody]
  by_cases hcreate : d.mode = .file ∧ response.createFails
  · rw [if_pos hcreate]
    exact List.cons_ne_nil _ _
  rw [if_neg hcreate]
  have hextends := d.receiveChunks_extends response.bodyError (d.started contentLength) [] response.chunks
  generalize d.receiveChunks response.bodyError (d.started contentLength) [] response.chunks =
    received at hextends
  obtain ⟨after, result⟩ := received
  have hne : after ≠ [] := List.IsPrefix.ne_nil hextends (List.cons_ne_nil _ _)
  cases result with
  | error error => exact hne
  | ok seen => exact hne

/-! ## The checks -/

theorem toInt_narrow (declared : UInt64) :
    (narrow declared).toInt =
      if declared.toNat % 2 ^ 32 < 2 ^ 31 then ((declared.toNat % 2 ^ 32 : ℕ) : ℤ)
      else ((declared.toNat % 2 ^ 32 : ℕ) : ℤ) - 2 ^ 32 := by
  have hbmod : (narrow declared).toInt = ((declared.toNat % 2 ^ 32 : ℕ) : ℤ).bmod (2 ^ 32) := by
    rw [narrow, Int32.toInt, UInt32.toInt32]
    simp [Int32.toBitVec, BitVec.toInt_eq_toNat_bmod]
  rw [hbmod, Int.bmod_def]
  split_ifs <;> omega

/-- The length exceeds the configured limit, or the one of a memory buffer. -/
def Exceeds (d : FileDownloader) (length : ℕ) : Prop :=
  (∃ max, d.maxContentLength = some max ∧ max.toNat < length) ∨
    d.mode = .memory ∧ 10485760 < length

/-- The checks refuse a length with the sign bit in its low half and one whose low half exceeds a
limit. -/
theorem checkLength_eq_ok_iff (d : FileDownloader) (declared : UInt64) (contentLength : Int32) :
    d.checkLength (some declared) = .ok contentLength ↔
      contentLength = narrow declared ∧ declared.toNat % 2 ^ 32 < 2 ^ 31 ∧
        ¬ d.Exceeds (declared.toNat % 2 ^ 32) := by
  have hnarrow := toInt_narrow declared
  have hwiden : declared.toNat % 2 ^ 32 < 2 ^ 31 → widen (narrow declared) = declared.toNat % 2 ^ 32 := by
    intro hlow
    rw [widen, hnarrow, if_pos hlow, Int.toNat_natCast]
  simp only [checkLength]
  by_cases hlow : declared.toNat % 2 ^ 32 < 2 ^ 31
  · rw [if_pos hlow] at hnarrow
    rw [if_neg (by omega), hwiden hlow, hnarrow]
    cases hfilter : d.maxContentLength.filter fun max => max.toNat < declared.toNat % 2 ^ 32 with
    | some max =>
      obtain ⟨hmax, hlt⟩ := Option.filter_eq_some_iff.mp hfilter
      exact ⟨nofun, fun h => absurd (.inl ⟨max, hmax, of_decide_eq_true hlt⟩) h.2.2⟩
    | none =>
      have hmax : ∀ max, d.maxContentLength = some max → ¬ max.toNat < declared.toNat % 2 ^ 32 := by
        intro max hmax hlt
        rw [hmax, Option.filter_some, if_pos (decide_eq_true hlt)] at hfilter
        cases hfilter
      by_cases hbuffer : 10485760 < ((declared.toNat % 2 ^ 32 : ℕ) : ℤ) ∧ d.mode = .memory
      · rw [if_pos hbuffer]
        exact ⟨nofun, fun h => absurd (.inr ⟨hbuffer.2, by omega⟩) h.2.2⟩
      · rw [if_neg hbuffer]
        constructor
        · intro h
          refine ⟨(Except.ok.inj h).symm, hlow, ?_⟩
          rintro (⟨max, hsome, hlt⟩ | ⟨hmode, hlt⟩)
          · exact hmax max hsome hlt
          · exact hbuffer ⟨by omega, hmode⟩
        · rintro ⟨rfl, -, -⟩
          rfl
  · rw [if_neg hlow] at hnarrow
    rw [if_pos (by omega)]
    exact ⟨nofun, fun h => absurd h.2.1 hlow⟩

/-! ## One attempt -/

/-- A response that is not refused for its status. -/
def Answers (response : Response) (declared : UInt64) : Prop :=
  200 ≤ response.status ∧ response.status < 300 ∧ response.contentLength = some declared

theorem attemptDownload_eq {d : FileDownloader} {response : Response} {declared : UInt64}
    (h : Answers response declared) :
    d.attemptDownload (.response response) =
      match d.checkLength (some declared) with
      | .error error => ([], .error (.retryable error))
      | .ok contentLength =>
        match d.receiveBody response contentLength with
        | (effects, .error error) => (effects, .error (.retryable error))
        | (effects, .ok buffer) => (effects, .ok buffer) := by
  obtain ⟨hlow, hhigh, hlen⟩ := h
  rw [attemptDownload, if_neg (by omega), if_neg (by omega), hlen]

/-- The attempt fails before it has stored a length, touched the file or read the body. -/
def Rejected (d : FileDownloader) (response : Response) : Prop :=
  (d.attemptDownload (.response response)).1 = [] ∧
    ∃ error, (d.attemptDownload (.response response)).2 = .error error

/-- The output is exactly the body, and the stored length is its length. -/
structure Delivered (d : FileDownloader) (response : Response) (declared : UInt64)
    (effects : List Effect) (buffer : Option Bytes) : Prop where
  length : response.data.length = declared.toNat
  stored : ∃ contentLength, storedLength effects = some contentLength ∧
    contentLength.toInt = declared.toNat
  memory : d.mode = .memory → buffer = some response.data
  file : d.mode = .file → ∀ output, outputAfter output effects = some response.data

/-- The limits hold for a response with this declared length. -/
structure LimitsHold (d : FileDownloader) (response : Response) (declared : UInt64) : Prop where
  configured : ∀ max, d.maxContentLength = some max → max < declared → d.Rejected response
  buffered : d.mode = .memory → 10485760 < declared.toNat → d.Rejected response
  delivered : ¬ d.Exceeds declared.toNat → ∀ effects buffer,
    d.attemptDownload (.response response) = (effects, .ok buffer) →
      d.Delivered response declared effects buffer

theorem delivered_of_receiveBody {d : FileDownloader} {response : Response} {declared : UInt64}
    (hbody : response.LengthDelimited) (hlen : response.contentLength = some declared)
    {contentLength : Int32} (hnonneg : 0 ≤ contentLength.toInt) {effects : List Effect}
    {buffer : Option Bytes}
    (h : d.receiveBody response contentLength = (effects, .ok buffer)) :
    d.Delivered response declared effects buffer := by
  obtain ⟨hend, hwiden, hbuffer, heffects⟩ := receiveBody_ok h
  have hdata := hbody declared hlen hend
  refine ⟨hdata, ⟨contentLength, ?_, ?_⟩, fun hmode => ?_, fun hmode output => ?_⟩
  · rw [heffects, started, storedLength]
    by_cases hmode : d.mode = .file
    · rw [if_pos hmode, if_pos hmode]
      exact storedLength_writes _ _
    · rw [if_neg hmode, if_neg hmode]
      rfl
  · rw [widen] at hwiden
    omega
  · rw [hbuffer, if_pos hmode]
  · rw [heffects, started, if_pos hmode, if_pos hmode]
    exact foldl_apply_write response.chunks []

theorem rejected_iff {d : FileDownloader} {response : Response} {declared : UInt64}
    (h : Answers response declared) :
    d.Rejected response ↔ 2 ^ 31 ≤ declared.toNat % 2 ^ 32 ∨ d.Exceeds (declared.toNat % 2 ^ 32) := by
  rw [Rejected, attemptDownload_eq h]
  cases hcheck : d.checkLength (some declared) with
  | error error =>
    refine ⟨fun _ => ?_, fun _ => ⟨rfl, _, rfl⟩⟩
    by_contra hnot
    obtain ⟨hlow, hexceeds⟩ := not_or.mp hnot
    have hok := (d.checkLength_eq_ok_iff declared (narrow declared)).mpr
      ⟨rfl, not_le.mp hlow, hexceeds⟩
    rw [hcheck] at hok
    cases hok
  | ok contentLength =>
    obtain ⟨-, hlow, hexceeds⟩ := (d.checkLength_eq_ok_iff declared contentLength).mp hcheck
    have hne := d.receiveBody_ne_nil response contentLength
    dsimp only
    generalize d.receiveBody response contentLength = received at hne ⊢
    obtain ⟨effects, result⟩ := received
    constructor
    · rintro ⟨hnil, -⟩
      cases result with
      | error error => exact absurd hnil hne
      | ok buffer => exact absurd hnil hne
    · rintro (hhigh | hlimit)
      · exact absurd hlow (not_lt.mpr hhigh)
      · exact absurd hlimit hexceeds

theorem delivered_of_attemptDownload {d : FileDownloader} {response : Response} {declared : UInt64}
    (h : Answers response declared) (hbody : response.LengthDelimited) {effects : List Effect}
    {buffer : Option Bytes} (hok : d.attemptDownload (.response response) = (effects, .ok buffer)) :
    d.Delivered response declared effects buffer := by
  rw [attemptDownload_eq h] at hok
  cases hcheck : d.checkLength (some declared) with
  | error error =>
    rw [hcheck] at hok
    cases hok
  | ok contentLength =>
    rw [hcheck] at hok
    obtain ⟨rfl, hlow, -⟩ := (d.checkLength_eq_ok_iff declared contentLength).mp hcheck
    have hnarrow := toInt_narrow declared
    rw [if_pos hlow] at hnarrow
    dsimp only at hok
    generalize hreceive : d.receiveBody response (narrow declared) = received at hok
    obtain ⟨after, result⟩ := received
    cases result with
    | error error => cases hok
    | ok seen =>
      cases hok
      exact delivered_of_receiveBody hbody h.2.2 (by omega) hreceive

/-- The limits hold exactly if the declared length exceeds none, or its low 32 bits as a signed
number are negative or exceed a limit as well. -/
theorem limitsHold_iff (d : FileDownloader) (response : Response) (declared : UInt64)
    (hanswers : Answers response declared) (hbody : response.LengthDelimited) :
    d.LimitsHold response declared ↔
      (d.Exceeds declared.toNat →
        2 ^ 31 ≤ declared.toNat % 2 ^ 32 ∨ d.Exceeds (declared.toNat % 2 ^ 32)) := by
  rw [← rejected_iff hanswers]
  constructor
  · rintro hholds (⟨max, hmax, hlt⟩ | ⟨hmode, hlt⟩)
    · exact hholds.configured max hmax (UInt64.lt_iff_toNat_lt.mpr hlt)
    · exact hholds.buffered hmode hlt
  · intro hreject
    refine ⟨fun max hmax hlt => hreject (.inl ⟨max, hmax, UInt64.lt_iff_toNat_lt.mp hlt⟩),
      fun hmode hlt => hreject (.inr ⟨hmode, hlt⟩), fun _ effects buffer hok => ?_⟩
    exact delivered_of_attemptDownload hanswers hbody hok

/-- Four bytes declared as such, with a limit of eight. -/
def fourBytes : Response := ⟨200, "200 OK", some 4, [⟨[116, 101, 115, 116], none⟩], none, false, false⟩

theorem limitsHold_fourBytes :
    LimitsHold ⟨"source", .memory, some 8⟩ fourBytes 4 := by
  refine (limitsHold_iff _ fourBytes 4 ⟨by decide, by decide, rfl⟩ ?_).mpr ?_
  · intro declared hdeclared _
    cases hdeclared
    rfl
  · rintro (⟨max, hmax, hlt⟩ | ⟨-, hlt⟩)
    · cases hmax
      exact absurd hlt (by decide)
    · exact absurd hlt (by decide)

/-- A body of four bytes more than 4 GiB that breaks off at once. -/
def wrappedLength : Response := ⟨200, "200 OK", some 4294967300, [], some "connection reset", false, false⟩

/-- The file is truncated although the declared length is far beyond the limit of eight bytes. -/
theorem wrappedLength_truncates :
    Answers wrappedLength 4294967300 ∧ wrappedLength.LengthDelimited ∧
      (attemptDownload ⟨"source", .file, some 8⟩ (.response wrappedLength)).1 =
        [.storeLength 4, .create] ∧
      ¬ LimitsHold ⟨"source", .file, some 8⟩ wrappedLength 4294967300 := by
  refine ⟨⟨by decide, by decide, rfl⟩, nofun, by decide, fun hholds => ?_⟩
  have hrejected := hholds.configured 8 rfl (by decide)
  exact absurd hrejected.1 (by decide)

/-! ## Retries -/

/-- Only a response with a success status and a declared length makes an attempt succeed. -/
theorem answers_of_attemptDownload {d : FileDownloader} {reply : Reply} {effects : List Effect}
    {buffer : Option Bytes} (h : d.attemptDownload reply = (effects, .ok buffer)) :
    ∃ response declared, reply = .response response ∧ Answers response declared := by
  cases reply with
  | sendFailed message => cases h
  | response response =>
    rw [attemptDownload] at h
    by_cases hmissing : response.status = 404
    · rw [if_pos hmissing] at h
      cases h
    rw [if_neg hmissing] at h
    by_cases hstatus : response.status < 200 ∨ 300 ≤ response.status
    · rw [if_pos hstatus] at h
      cases h
    rw [if_neg hstatus] at h
    cases hlen : response.contentLength with
    | none =>
      rw [hlen] at h
      cases h
    | some declared => exact ⟨response, declared, rfl, by omega, by omega, hlen⟩

theorem outputAfter_append (output : Option Bytes) (effects more : List Effect) :
    outputAfter output (effects ++ more) = outputAfter (outputAfter output effects) more :=
  List.foldl_append

/-- A download that succeeds leaves the body of one of the responses, whatever the attempts before
it have left in the file. -/
theorem download_ok {d : FileDownloader} (hmode : d.mode = .file) {retries : ℕ} {replies : ℕ → Reply}
    (hbody : ∀ n response, replies n = .response response → response.LengthDelimited)
    {effects : List Effect} {buffer : Option Bytes}
    (h : d.download retries replies = (effects, .ok buffer)) (output : Option Bytes) :
    ∃ n response, n < retries ∧ replies n = .response response ∧
      outputAfter output effects = some response.data := by
  induction retries generalizing replies effects output with
  | zero => cases h
  | succ retries ih =>
    rw [download] at h
    generalize hattempt : d.attemptDownload (replies 0) = attempt at h
    obtain ⟨first, result⟩ := attempt
    match result with
    | .ok seen =>
      cases h
      obtain ⟨response, declared, hreply, hanswers⟩ := answers_of_attemptDownload hattempt
      rw [hreply] at hattempt
      have hdelivered := delivered_of_attemptDownload hanswers (hbody 0 response hreply) hattempt
      exact ⟨0, response, Nat.succ_pos _, hreply, hdelivered.file hmode output⟩
    | .error (.notFound error) => cases h
    | .error (.retryable error) =>
      generalize hmore : d.download retries (fun n => replies (n + 1)) = more at h
      obtain ⟨later, result⟩ := more
      obtain ⟨heffects, hresult⟩ := Prod.mk.inj h
      rw [hresult] at hmore
      obtain ⟨n, response, hn, hreply, houtput⟩ :=
        ih (fun n => hbody (n + 1)) hmore (outputAfter output first)
      refine ⟨n + 1, response, Nat.succ_lt_succ hn, hreply, ?_⟩
      rw [← heffects, outputAfter_append, houtput]

end FileDownloader
end HathRs.FileDownloads
