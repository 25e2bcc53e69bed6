import Logline.Delivery.Downstream
/-!
What the worker does for its payloads, as a plain function of their list.  A
sink sifts a payload through its filter, translates what is left with its
encoder and writes the bytes that this gives; `performAll` does so for payload
after payload, with a flush in between now and then.  The bytes written are the
images of the payloads (`written_performAll`), and nothing but them.
-/
namespace Logline.Delivery

variable {σ : Type}

namespace Downstream

/-- What the filter leaves of a payload. -/
def sift (ds : Downstream σ) (payload : Bytes) (sink : σ) :
    σ × Option Bytes :=
  match ds.filter with
  | none => (sink, some payload)
  | some filter =>
    match filter sink payload with
    | (sink, .ok false) => (sink, some payload)
    | (sink, .ok true) => (sink, none)
    | (sink, .error _) => (sink, none)

/-- The bytes that the encoder makes of a payload, which are the payload
itself if there is no encoder. -/
def translate (ds : Downstream σ) (payload : Bytes) (sink : σ) :
    σ × Option Bytes :=
  match ds.encode with
  | none => (sink, some payload)
  | some encode =>
    match encode sink payload with
    | (sink, .done bytes) => (sink, some bytes)
    | (sink, .failed _) => (sink, none)
    | (sink, .panicked _) => (sink, none)

/-- The bytes to write for a payload, if any. -/
def image (ds : Downstream σ) (payload : Bytes) (sink : σ) :
    σ × Option Bytes :=
  match ds.sift payload sink with
  | (sink, none) => (sink, none)
  | (sink, some kept) => ds.translate kept sink

/-- The filter is asked, if there is one. -/
def siftCalls (ds : Downstream σ) (payload : Bytes) : List Call :=
  if ds.filter.isSome then [.filter payload] else []

/-- The encoder is asked, if there is one. -/
def translateCalls (ds : Downstream σ) (payload : Bytes) : List Call :=
  if ds.encode.isSome then [.encode payload] else []

/-- Writes the bytes, if there are any, once and whatever comes of it. -/
def deliver (ds : Downstream σ) (bytes : Option Bytes) (sink : σ) :
    σ × List Call :=
  match bytes with
  | none => (sink, [])
  | some bytes => ((ds.write sink bytes).1, [.write bytes])

/-- Translates what is left of a payload, if anything, and writes it. -/
def forward (ds : Downstream σ) (kept : Option Bytes) (sink : σ) :
    σ × List Call :=
  match kept with
  | none => (sink, [])
  | some payload =>
      let (sink, bytes) := ds.translate payload sink
      let (sink, calls) := ds.deliver bytes sink
      (sink, ds.translateCalls payload ++ calls)

/-- Everything that is done for a payload. -/
def handle (ds : Downstream σ) (payload : Bytes) (sink : σ) :
    σ × List Call :=
  let (sink, kept) := ds.sift payload sink
  let (sink, calls) := ds.forward kept sink
  (sink, ds.siftCalls payload ++ calls)

end Downstream

/-- What a worker has to do next, as a whole. -/
inductive Job
  | handle (payload : Bytes)
  | flush
deriving DecidableEq, Repr

namespace Job

def payload? : Job → Option Bytes
  | handle payload => some payload
  | flush => none

end Job

namespace Downstream

def perform (ds : Downstream σ) (job : Job) (sink : σ) : σ × List Call :=
  match job with
  | .handle payload => ds.handle payload sink
  | .flush => ((ds.flush sink).1, [.flush])

/-- The sink after jobs in this order, and what has been asked of it. -/
def performAll (ds : Downstream σ) : List Job → σ → σ × List Call
  | [], sink => (sink, [])
  | job :: rest, sink =>
      let (sink, calls) := ds.perform job sink
      let (sink, later) := ds.performAll rest sink
      (sink, calls ++ later)

theorem performAll_append (ds : Downstream σ) (first second : List Job)
    (sink : σ) :
    ds.performAll (first ++ second) sink =
      ((ds.performAll second (ds.performAll first sink).1).1,
        (ds.performAll first sink).2 ++
          (ds.performAll second (ds.performAll first sink).1).2) := by
  induction first generalizing sink with
  | nil => rfl
  | cons job rest ih => simp [performAll, ih]

theorem performAll_snoc (ds : Downstream σ) (jobs : List Job) (job : Job)
    (sink : σ) :
    ds.performAll (jobs ++ [job]) sink =
      ((ds.perform job (ds.performAll jobs sink).1).1,
        (ds.performAll jobs sink).2 ++
          (ds.perform job (ds.performAll jobs sink).1).2) := by
  rw [performAll_append]
  simp [performAll]

end Downstream

/-! ### The calls of one payload -/

def Call.written? : Call → Option Bytes
  | .write bytes => some bytes
  | _ => none

/-- The bytes of the writes among calls, in order. -/
def written (calls : List Call) : List Bytes :=
  calls.filterMap Call.written?

@[simp] theorem written_append (first second : List Call) :
    written (first ++ second) = written first ++ written second :=
  List.filterMap_append

namespace Downstream

@[simp] theorem written_siftCalls (ds : Downstream σ) (payload : Bytes) :
    written (ds.siftCalls payload) = [] := by
  rw [siftCalls]
  split <;> rfl

@[simp] theorem written_translateCalls (ds : Downstream σ)
    (payload : Bytes) : written (ds.translateCalls payload) = [] := by
  rw [translateCalls]
  split <;> rfl

@[simp] theorem written_deliver (ds : Downstream σ) (bytes : Option Bytes)
    (sink : σ) : written (ds.deliver bytes sink).2 = bytes.toList := by
  cases bytes <;> rfl

/-- A payload is written as its image, once, or not at all if it has none. -/
theorem written_handle (ds : Downstream σ) (payload : Bytes) (sink : σ) :
    written (ds.handle payload sink).2 =
      (ds.image payload sink).2.toList := by
  rw [handle, image]
  rcases ds.sift payload sink with ⟨sink, _ | kept⟩
  · simp only [forward, List.append_nil, written_siftCalls]
    rfl
  · simp [forward]

/-- The images of the payloads among jobs, each for the sink that its turn
finds. -/
def images (ds : Downstream σ) : List Job → σ → List Bytes
  | [], _ => []
  | .flush :: rest, sink => ds.images rest (ds.perform .flush sink).1
  | .handle payload :: rest, sink =>
      (ds.image payload sink).2.toList ++
        ds.images rest (ds.perform (.handle payload) sink).1

theorem written_performAll (ds : Downstream σ) (jobs : List Job) (sink : σ) :
    written (ds.performAll jobs sink).2 = ds.images jobs sink := by
  induction jobs generalizing sink with
  | nil => rfl
  | cons job rest ih =>
      cases job with
      | handle payload =>
          simp only [performAll, images, perform, written_append,
            written_handle, ih]
      | flush =>
          simp only [performAll, images, perform, written_append, ih]
          rfl

/-- If the answers of filter and encoder depend on the payload alone, the
images of the jobs are the images of their payloads. -/
theorem images_eq_filterMap {ds : Downstream σ}
    {image : Bytes → Option Bytes}
    (himage : ∀ payload sink, (ds.image payload sink).2 = image payload)
    (jobs : List Job) (sink : σ) :
    ds.images jobs sink = (jobs.filterMap Job.payload?).filterMap image := by
  induction jobs generalizing sink with
  | nil => rfl
  | cons job rest ih =>
      cases job with
      | handle payload =>
          simp only [images, himage, ih, Job.payload?, List.filterMap_cons]
          cases image payload <;> rfl
      | flush => exact ih _

end Downstream

end Logline.Delivery
