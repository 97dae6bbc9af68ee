import TeamFlow.Console
import TeamFlow.Main
import TeamFlow.Number.Reading
import TeamFlow.Proofs.Chat.ModelCache
import TeamFlow.Proofs.Demo
import TeamFlow.Proofs.Graph.Rejecting
import TeamFlow.Proofs.Graph.Searching
import TeamFlow.Proofs.Rehearsal.Drift
import TeamFlow.Proofs.Rehearsal.Logging
import TeamFlow.Proofs.Rehearsal.Updates
import TeamFlow.Proofs.Run.Containment
import TeamFlow.Proofs.Run.Limit
import TeamFlow.Proofs.Run.Nesting
import TeamFlow.Proofs.Run.Pipeline
import TeamFlow.Proofs.Run.Reordering
import TeamFlow.Proofs.Run.Replay
import TeamFlow.Proofs.Run.Resolution
import TeamFlow.Proofs.Run.Resuming
import TeamFlow.Proofs.Run.Wrapping
import TeamFlow.Proofs.StepLimit
import TeamFlow.Proofs.Team.Choices
import TeamFlow.Proofs.Team.Contract
import TeamFlow.Proofs.Team.Ownership
import TeamFlow.Proofs.Team.Privileges
import TeamFlow.Proofs.Team.Prompting
import TeamFlow.Proofs.Worker.Proposing
import TeamFlow.Proofs.Worker.Transcript
import TeamFlow.Proofs.Workspace.Accepting
import TeamFlow.Proofs.Workspace.Paging
import TeamFlow.Proofs.Workspace.Rereading
import TeamFlow.Proofs.Workspace.Surviving
import TeamFlow.Rehearsal.Cast
import TeamFlow.Rehearsal.Session
