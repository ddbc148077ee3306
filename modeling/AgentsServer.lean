import AgentsServer.Mailbox.WakeOnce
import AgentsServer.Transcript.Privacy
import AgentsServer.TeamHub.History
import AgentsServer.TeamHub.InboxReading
import AgentsServer.TeamHub.NoLostNotification
import AgentsServer.PeerRuntime.HostBarrier
import AgentsServer.SecurePeer.PeerRevocation
import AgentsServer.TeamHub.SessionRevocation
import AgentsServer.PeerStore.Offers
import AgentsServer.PeerProxy.Confinement
import AgentsServer.PeerStore.Exchanges
import AgentsServer.InteractiveShares.Replays
import AgentsServer.SessionSaves.Progress
import AgentsServer.EventLog.Increasing
import AgentsServer.LiveEvents.NoHole
import AgentsServer.Exchanges.Kept
import AgentsServer.PeerDelivery.Retries
import AgentsServer.Transcript.Receipts
import AgentsServer.TeamHub.ThreadPages
import AgentsServer.ProviderCommands.Redaction
import AgentsServer.TeamHub.AttachmentContinuation
import AgentsServer.Activation.FinishAgain
import AgentsServer.HubStartup.Republish
import AgentsServer.PublicShares.Shown
import AgentsServer.Mailbox.Listing
import AgentsServer.EventIndex.Trusted
import AgentsServer.PeerStore.Pairings
import AgentsServer.TeamHub.AdminScan
import AgentsServer.TurnSlots.Calls
import AgentsServer.Schedules.LeastSlot
