import QueueWatch.Watchlist.Basic

/-!
# Sharing a watchlist between threads

Threads register and withdraw sockets at the same time, while others read the watchlist. It lives
in a cell that holds the current watchlist and is only ever read or replaced as a whole. A thread
that wants to change it loads the watchlist, computes the next one, and puts that into the cell
unless someone else was faster; then it begins anew from what the cell holds now. Replacing
everything at once is a single store.

The cell carries a version, which every change of its contents increases: a thread was the fastest
exactly if the version is still the one that it loaded.

A run is a sequence of single steps, each of one thread, in any order (`SharedWatchlist.run`).
-/

namespace QueueWatch

inductive Change where
  | add (entry : SocketId × Endpoint)
  | withdraw (id : SocketId)
  | replace (watchlist : Watchlist)

/-- The effect of a change on the watchlist, and the answer to whoever asked for it. -/
def Change.apply (w : Watchlist) : Change → Bool × Watchlist
  | .add entry => w.add entry
  | .withdraw id => w.withdraw id
  | .replace next => (true, next)

/-- Whether a change leaves the watchlist as it is, so that there is nothing to put into the cell.
-/
def Change.keeps (w : Watchlist) : Change → Bool
  | .withdraw id => !w.contains id
  | .add _ | .replace _ => false

/-- What a thread is doing: it loads the watchlist next, or it has loaded it. -/
inductive Phase where
  | idle
  | loaded (version : Nat) (watchlist : Watchlist)

/-- A thread: what it still has to do, and the answers that it got. -/
structure Worker where
  todo : List Change
  phase : Phase := .idle
  answers : List Bool := []

structure Cell where
  version : Nat
  watchlist : Watchlist

structure SharedWatchlist where
  cell : Cell
  workers : List Worker

/-- Puts a watchlist into the cell. -/
def Cell.publish (c : Cell) (w : Watchlist) : Cell :=
  ⟨c.version + 1, w⟩

namespace SharedWatchlist

/-- The next step of a thread. -/
def stepWorker (c : Cell) (t : Worker) : Cell × Worker :=
  match t.todo, t.phase with
  | [], _ => (c, t)
  | .replace w :: rest, _ =>
      (c.publish w, { todo := rest, answers := t.answers ++ [true] })
  | _ :: _, .idle => (c, { t with phase := .loaded c.version c.watchlist })
  | change :: rest, .loaded version w =>
      let (answer, next) := change.apply w
      if version = c.version then
        let cell := if change.keeps w then c else c.publish next
        (cell, { todo := rest, answers := t.answers ++ [answer] })
      else (c, { t with phase := .loaded c.version c.watchlist })

def step (s : SharedWatchlist) (thread : Nat) : SharedWatchlist :=
  match s.workers[thread]? with
  | none => s
  | some t =>
      let (cell, t) := stepWorker s.cell t
      { cell, workers := s.workers.set thread t }

/-- Runs the threads in the given order. -/
def run (s : SharedWatchlist) (schedule : List Nat) : SharedWatchlist :=
  schedule.foldl step s

/-- A watchlist and threads that have not begun. -/
def start (w : Watchlist) (tasks : List (List Change)) : SharedWatchlist where
  cell := ⟨0, w⟩
  workers := tasks.map fun todo => { todo }

/-- An order in which the threads take turns, long enough for each to finish. A change takes a load
and an attempt, and each failed attempt is due to the success of another thread. -/
def turns (tasks : List (List Change)) : List Nat :=
  let changes := tasks.flatten.length
  (List.replicate (2 * changes + 1) (List.range tasks.length)).flatten

/-- The watchlist after threads have made their changes in turns. -/
def runAll (w : Watchlist) (tasks : List (List Change)) : Watchlist :=
  ((start w tasks).run (turns tasks)).cell.watchlist

end SharedWatchlist

end QueueWatch
